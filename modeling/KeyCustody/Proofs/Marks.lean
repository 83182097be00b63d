import KeyCustody.Proofs.Envelope
import KeyCustody.Proofs.KeyDocument
/-! # Marks in documents

A text has one field more than it has marks. A character other than `@` ends a mark that is not complete,
and quotes, escapes and brackets are such characters: the text of a JSON value has the marks of its
strings. -/

namespace KeyCustody

namespace Envelope

/-- The marks that a text completes after `run` characters of a mark. -/
def marksAfter : (run : Nat) → List Char → Nat
  | _, [] => 0
  | run, c :: cs =>
    if c ≠ '@' then marksAfter 0 cs
    else if run = 3 then marksAfter 0 cs + 1
    else marksAfter (run + 1) cs

def marks (s : String) : Nat := marksAfter 0 s.toList

theorem marksAfter_cons {c : Char} (h : c ≠ '@') (run : Nat) (cs : List Char) :
    marksAfter run (c :: cs) = marksAfter 0 cs := if_pos h

theorem marksAfter_append_cons {c : Char} (h : c ≠ '@') (run : Nat) (cs ds : List Char) :
    marksAfter run (cs ++ c :: ds) = marksAfter run cs + marksAfter 0 ds := by
  induction cs generalizing run with
  | nil => rw [List.nil_append, marksAfter_cons h, marksAfter, Nat.zero_add]
  | cons d cs ih =>
    simp only [List.cons_append, marksAfter, ih]
    split_ifs <;> omega

theorem marksAfter_append {cs : List Char} (h : '@' ∉ cs) (ds : List Char) :
    marksAfter 0 (cs ++ ds) = marksAfter 0 ds := by
  induction cs with
  | nil => rfl
  | cons c cs ih =>
    rw [List.mem_cons, not_or] at h
    rw [List.cons_append, marksAfter_cons (Ne.symm h.1), ih h.2]

theorem length_fields_cons {c : Char} {cs : List Char} (h : ∀ ds, c :: cs ≠ mark ++ ds) :
    (fields (c :: cs)).length = (fields cs).length := by
  have hne : fields cs ≠ [] := by
    fun_cases fields cs <;> simp
  rw [fields]
  · cases hfields : fields cs with
    | nil => exact absurd hfields hne
    | cons f fs => rfl
  · rintro ds rfl rfl
    exact h ds rfl

/-- Characters of a mark that is not completed are cut at no place. -/
theorem length_fields_skip {run : Nat} {c : Char} (hc : c ≠ '@') (hrun : run < 4) (cs : List Char) :
    (fields (List.replicate run '@' ++ c :: cs)).length = (fields cs).length := by
  have hmark : ∀ n < 4, ∀ ds, List.replicate n '@' ++ c :: cs ≠ mark ++ ds := by
    intro n hn ds h
    have hchar : (List.replicate n '@' ++ c :: cs)[n]? = (List.replicate 4 '@' ++ ds)[n]? :=
      congrArg (·[n]?) h
    rw [List.getElem?_append_right (by simp), List.getElem?_append_left (by simpa using hn)] at hchar
    simp only [List.length_replicate, Nat.sub_self, List.getElem?_cons_zero, List.getElem?_replicate,
      if_pos hn, Option.some.injEq] at hchar
    exact hc hchar
  induction run with
  | zero => exact length_fields_cons (hmark 0 hrun)
  | succ n ih => exact (length_fields_cons (hmark (n + 1) hrun)).trans (ih (by omega))

/-- Fields are cut at the marks, also when characters of a mark stand before them. -/
theorem length_fields_replicate {run : Nat} (hrun : run < 4) (cs : List Char) :
    (fields (List.replicate run '@' ++ cs)).length = marksAfter run cs + 1 := by
  induction cs generalizing run with
  | nil =>
    have hall : ∀ n < 4, (fields (List.replicate n '@' ++ [])).length = 1 := by decide
    exact hall run hrun
  | cons c cs ih =>
    have hrest : (fields cs).length = marksAfter 0 cs + 1 := ih (Nat.succ_pos 3)
    by_cases hc : c = '@'
    · subst hc
      by_cases hlast : run = 3
      · subst hlast
        simp [fields, marksAfter, List.replicate, hrest]
      · have hnext : List.replicate run '@' ++ '@' :: cs = List.replicate (run + 1) '@' ++ cs := by
          rw [List.replicate_succ', List.append_assoc]
          rfl
        rw [hnext, ih (by omega)]
        simp [marksAfter, hlast]
    · rw [marksAfter_cons hc, ← hrest, length_fields_skip hc hrun]

theorem length_fields (cs : List Char) : (fields cs).length = marksAfter 0 cs + 1 :=
  length_fields_replicate (Nat.succ_pos 3) cs

end Envelope

namespace Json

open Envelope

/-! ## Texts of values -/

theorem marksAfter_escapedChar (c : Char) (run : Nat) (rest : List Char) :
    marksAfter run (escapedChar c ++ rest) = marksAfter run (c :: rest) := by
  have hescape : ∀ d ds, c ≠ '@' → '@' ∉ d :: ds →
      marksAfter run (d :: ds ++ rest) = marksAfter run (c :: rest) := by
    intro d ds hc h
    rw [List.mem_cons, not_or] at h
    rw [List.cons_append, marksAfter_cons (Ne.symm h.1), marksAfter_append h.2, marksAfter_cons hc]
  unfold escapedChar
  split_ifs with h1 h2 h3 h4 h5 h6 h7 h8
  · exact hescape _ _ (by subst h1; decide) (by decide)
  · exact hescape _ _ (by subst h2; decide) (by decide)
  · exact hescape _ _ (by subst h3; decide) (by decide)
  · exact hescape _ _ (by subst h4; decide) (by decide)
  · exact hescape _ _ (by subst h5; decide) (by decide)
  · exact hescape _ _ (by subst h6; decide) (by decide)
  · exact hescape _ _ (by subst h7; decide) (by decide)
  · have hdigits : ∀ n < 0x20,
        '@' ∉ ['\\', 'u', '0', '0', Nat.digitChar (n / 16), Nat.digitChar (n % 16)] := by
      decide
    refine hescape _ _ ?_ (hdigits _ h8)
    rintro rfl
    exact absurd h8 (by decide)
  · rfl

/-- A string between quotes has its marks. -/
theorem marksAfter_quotedChars (s : String) (rest : List Char) :
    marksAfter 0 (quotedChars s ++ rest) = marks s + marksAfter 0 rest := by
  have hquote : '"' ≠ '@' := by decide
  have hescaped : ∀ (cs : List Char) (run : Nat),
      marksAfter run (cs.flatMap escapedChar) = marksAfter run cs := by
    intro cs
    induction cs with
    | nil => exact fun _ => rfl
    | cons c cs ih =>
      intro run
      rw [List.flatMap_cons, marksAfter_escapedChar]
      simp only [marksAfter, ih]
  rw [quotedChars, List.cons_append, List.cons_append, marksAfter_cons hquote, List.append_assoc,
    List.singleton_append, marksAfter_append_cons hquote, hescaped, marks]

theorem Number.notMem_realText (x : Float) : '@' ∉ (realText x).toList := by
  have htake : ∀ k n, '@' ∉ (Decimal.digits n).take k := fun k n h =>
    notMem_digits n (List.mem_of_mem_take h)
  have hdrop : ∀ k n, '@' ∉ (Decimal.digits n).drop k := fun k n h =>
    notMem_digits n (List.mem_of_mem_drop h)
  intro h
  unfold realText at h
  simp only at h
  split_ifs at h <;> simp [notMem_digits, htake, hdrop, -List.drop_one] at h

theorem Number.notMem_text (n : Number) : '@' ∉ n.text.toList := by
  cases n with
  | natural n =>
    rw [text, Decimal.text, String.toList_ofList]
    exact notMem_digits n
  | negative n =>
    simp only [text, Decimal.text, String.toList_append, String.toList_ofList, List.mem_append, not_or]
    exact ⟨by decide, notMem_digits n⟩
  | real x => exact notMem_realText x

namespace Value

mutual

def marks : Value → Nat
  | string s => Envelope.marks s
  | list items => itemsMarks items
  | object members => membersMarks members
  | _ => 0

def itemsMarks : List Value → Nat
  | [] => 0
  | item :: items => marks item + itemsMarks items

def membersMarks : List (String × Value) → Nat
  | [] => 0
  | (key, value) :: members => Envelope.marks key + marks value + membersMarks members

end

mutual

/-- The text of a value has the marks of its strings. -/
theorem marksAfter_chars (v : Value) (rest : List Char) :
    marksAfter 0 (v.chars ++ rest) = v.marks + marksAfter 0 rest := by
  match v with
  | null => exact (marksAfter_append (by decide) rest).trans (Nat.zero_add _).symm
  | bool true => exact (marksAfter_append (by decide) rest).trans (Nat.zero_add _).symm
  | bool false => exact (marksAfter_append (by decide) rest).trans (Nat.zero_add _).symm
  | number n => exact (marksAfter_append n.notMem_text rest).trans (Nat.zero_add _).symm
  | string s =>
    rw [chars, marks]
    exact marksAfter_quotedChars s rest
  | list [] => exact (marksAfter_append (by decide) rest).trans (Nat.zero_add _).symm
  | list (item :: items) =>
    have hopen : '[' ≠ '@' := by decide
    have hclose : ']' ≠ '@' := by decide
    simp only [chars, marks, itemsMarks, List.cons_append, List.append_assoc, List.nil_append,
      marksAfter_cons hopen, marksAfter_chars item, marksAfter_itemsChars items,
      marksAfter_cons hclose, Nat.add_assoc]
  | object [] => exact (marksAfter_append (by decide) rest).trans (Nat.zero_add _).symm
  | object ((key, value) :: members) =>
    have hopen : '\x7b' ≠ '@' := by decide
    have hcolon : ':' ≠ '@' := by decide
    have hclose : '\x7d' ≠ '@' := by decide
    simp only [chars, marks, membersMarks, List.cons_append, List.append_assoc, List.nil_append,
      marksAfter_cons hopen, marksAfter_quotedChars, marksAfter_cons hcolon, marksAfter_chars value,
      marksAfter_membersChars members, marksAfter_cons hclose, Nat.add_assoc]

theorem marksAfter_itemsChars (items : List Value) (rest : List Char) :
    marksAfter 0 (itemsChars items ++ rest) = itemsMarks items + marksAfter 0 rest := by
  match items with
  | [] => exact (Nat.zero_add _).symm
  | item :: items =>
    have hcomma : ',' ≠ '@' := by decide
    simp only [itemsChars, itemsMarks, List.cons_append, List.append_assoc, marksAfter_cons hcomma,
      marksAfter_chars item, marksAfter_itemsChars items, Nat.add_assoc]

theorem marksAfter_membersChars (members : List (String × Value)) (rest : List Char) :
    marksAfter 0 (membersChars members ++ rest) = membersMarks members + marksAfter 0 rest := by
  match members with
  | [] => exact (Nat.zero_add _).symm
  | (key, value) :: members =>
    have hcomma : ',' ≠ '@' := by decide
    have hcolon : ':' ≠ '@' := by decide
    simp only [membersChars, membersMarks, List.cons_append, List.append_assoc,
      marksAfter_cons hcomma, marksAfter_quotedChars, marksAfter_cons hcolon, marksAfter_chars value,
      marksAfter_membersChars members, Nat.add_assoc]

end

theorem trim_chars_list (items : List Value) : Text.trim (list items).chars = (list items).chars := by
  have hopen : Text.isBlank '[' = false := by decide
  have hclose : Text.isBlank ']' = false := by decide
  simp [chars_list, Text.trim, Text.trimEnd, hopen, hclose]

theorem trim_chars_object (members : List (String × Value)) :
    Text.trim (object members).chars = (object members).chars := by
  have hopen : Text.isBlank '\x7b' = false := by decide
  have hclose : Text.isBlank '\x7d' = false := by decide
  simp [chars_object, Text.trim, Text.trimEnd, hopen, hclose]

/-- A text without blanks at its ends looks like an envelope exactly if its strings have four marks. -/
theorem looksLike_text {v : Value} (htrim : Text.trim v.chars = v.chars) :
    Envelope.looksLike v.text = true ↔ v.marks = 4 := by
  have hmarks : marksAfter 0 v.chars = v.marks := by
    have h := marksAfter_chars v []
    rwa [List.append_nil] at h
  rw [Envelope.looksLike, text, String.toList_ofList, htrim, Envelope.length_fields, hmarks, beq_iff_eq]
  omega

end Value

end Json

namespace KeyPair

open Json

/-! ## Documents of key pairs -/

def marks (k : KeyPair) : Nat :=
  Envelope.marks k.keyid + Envelope.marks k.keyval.publicHalf + Envelope.marks k.keyval.privateHalf

theorem marks_name_keytype (t : KeyType) : Envelope.marks t.name = 0 := by
  cases t <;> rfl

theorem marks_name_scheme (s : Scheme) : Envelope.marks s.name = 0 := by
  cases s <;> rfl

theorem itemsMarks_names (algorithms : List HashAlgorithm) :
    Value.itemsMarks (algorithms.map fun a => .string a.name) = 0 := by
  induction algorithms with
  | nil => rfl
  | cons a algorithms ih =>
    have hname : Envelope.marks a.name = 0 := by cases a <;> rfl
    rw [List.map_cons, Value.itemsMarks, Value.marks, hname, ih]

theorem marks_keyval (v : KeyVal) :
    v.json.marks = Envelope.marks v.publicHalf + Envelope.marks v.privateHalf := by
  have hpublic : Envelope.marks "public" = 0 := rfl
  have hprivate : Envelope.marks "private" = 0 := rfl
  have hempty : Envelope.marks "" = 0 := rfl
  unfold KeyVal.json
  split_ifs with h
  · simp [Value.marks, Value.membersMarks, hpublic, h, hempty]
  · simp [Value.marks, Value.membersMarks, hpublic, hprivate]

theorem marks_json (k : KeyPair) : k.json.marks = k.marks := by
  have hkeytype : Envelope.marks "keytype" = 0 := rfl
  have hscheme : Envelope.marks "scheme" = 0 := rfl
  have hkeyid : Envelope.marks "keyid" = 0 := rfl
  have halgorithms : Envelope.marks "keyid_hash_algorithms" = 0 := rfl
  have hkeyval : Envelope.marks "keyval" = 0 := rfl
  unfold json
  cases k.hashAlgorithms <;>
    simp [Value.marks, Value.membersMarks, marks_name_keytype, marks_name_scheme, itemsMarks_names,
      marks_keyval, hkeytype, hscheme, hkeyid, halgorithms, hkeyval, marks, Nat.add_assoc]

/-- The document of a key pair looks like an envelope exactly if its strings have four marks. -/
theorem looksLike_document (k : KeyPair) : Envelope.looksLike k.document = true ↔ k.marks = 4 := by
  rw [← marks_json]
  exact Value.looksLike_text (Value.trim_chars_object _)

theorem marks_listing (k : KeyPair) : k.listing.marks = k.marks := by
  unfold listing KeyVal.listing
  cases k.hashAlgorithms <;>
    simp [Value.marks, Value.itemsMarks, marks_name_keytype, marks_name_scheme, itemsMarks_names, marks,
      Nat.add_assoc]

theorem looksLike_listing (k : KeyPair) : Envelope.looksLike k.listing.text = true ↔ k.marks = 4 := by
  rw [← marks_listing]
  exact Value.looksLike_text (Value.trim_chars_list _)

end KeyPair

end KeyCustody
