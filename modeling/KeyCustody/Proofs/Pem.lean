import KeyCustody.Pem.Block
import KeyCustody.Text.Characters
import Mathlib.Tactic.Common
/-! # PEM blocks there and back

Base64 text is read as the bytes that it was written for, and it has neither hyphens nor line ends. So
its lines are put together again, and the marks around them are found where they stand. The other way
round, a text that is read as a block has its marks at both ends of lines without hyphens. -/

namespace KeyCustody

variable {x y z : UInt8} {c : Char} {cs : List Char} {b : Bytes}

/-! ## Base64 -/

namespace Base64

def isLetter (c : Char) : Bool := c != '-' && c != '\n' && c != '\r'

theorem digit_spec {n : Nat} (h : n < 64) :
    value? (digit n) = some n ∧ digit n ≠ '=' ∧ isLetter (digit n) = true := by
  have hall : ∀ m < 64, value? (digit m) = some m ∧ digit m ≠ '=' ∧ isLetter (digit m) = true := by
    decide
  exact hall n h

theorem value?_digit {n : Nat} (h : n < 64) : value? (digit n) = some n := (digit_spec h).1

theorem digit_ne_pad {n : Nat} (h : n < 64) : digit n ≠ '=' := (digit_spec h).2.1

theorem isLetter_digit {n : Nat} (h : n < 64) : isLetter (digit n) = true := (digit_spec h).2.2

theorem ofNat_eq {n : Nat} (h : n = x.toNat) : UInt8.ofNat n = x := by
  rw [h, UInt8.ofNat_toNat]

/-- The values of the four characters of a group are below sixty-four, and the bytes are put together
from them. -/
theorem group_spec (x y z : UInt8) :
    (x.toNat / 4 < 64 ∧ x.toNat % 4 * 16 + y.toNat / 16 < 64 ∧
      y.toNat % 16 * 4 + z.toNat / 64 < 64 ∧ z.toNat % 64 < 64) ∧
    UInt8.ofNat (x.toNat / 4 * 4 + (x.toNat % 4 * 16 + y.toNat / 16) / 16) = x ∧
    UInt8.ofNat ((x.toNat % 4 * 16 + y.toNat / 16) % 16 * 16 +
      (y.toNat % 16 * 4 + z.toNat / 64) / 4) = y ∧
    UInt8.ofNat ((y.toNat % 16 * 4 + z.toNat / 64) % 4 * 64 + z.toNat % 64) = z := by
  have hx : x.toNat < 256 := x.toNat_lt
  have hy : y.toNat < 256 := y.toNat_lt
  have hz : z.toNat < 256 := z.toNat_lt
  refine ⟨by omega, ofNat_eq ?_, ofNat_eq ?_, ofNat_eq ?_⟩ <;> omega

theorem decodeLast?_one (x : UInt8) :
    decodeLast? (digit (x.toNat / 4)) (digit (x.toNat % 4 * 16)) '=' '=' = some [x] := by
  obtain ⟨⟨ha, hb, -, -⟩, hx, -, -⟩ := group_spec x 0 0
  have hzero : (0 : UInt8).toNat / 16 = 0 := rfl
  rw [hzero, Nat.add_zero] at hb hx
  have hrest : x.toNat % 4 * 16 % 16 = 0 := by omega
  simp only [decodeLast?, value?_digit ha, value?_digit hb, Option.bind_eq_bind, Option.bind_some,
    hrest, and_self, if_true, hx, Option.pure_def]

theorem decodeLast?_two (x y : UInt8) :
    decodeLast? (digit (x.toNat / 4)) (digit (x.toNat % 4 * 16 + y.toNat / 16))
      (digit (y.toNat % 16 * 4)) '=' = some [x, y] := by
  obtain ⟨⟨ha, hb, hc, -⟩, hx, hy, -⟩ := group_spec x y 0
  have hzero : (0 : UInt8).toNat / 64 = 0 := rfl
  rw [hzero, Nat.add_zero] at hc hy
  have hrest : y.toNat % 16 * 4 % 4 = 0 := by omega
  simp only [decodeLast?, value?_digit ha, value?_digit hb, value?_digit hc, Option.bind_eq_bind,
    Option.bind_some, if_neg (digit_ne_pad hc), hrest, if_true, hx, hy, Option.pure_def]

theorem decodeLast?_three (x y z : UInt8) :
    decodeLast? (digit (x.toNat / 4)) (digit (x.toNat % 4 * 16 + y.toNat / 16))
      (digit (y.toNat % 16 * 4 + z.toNat / 64)) (digit (z.toNat % 64)) = some [x, y, z] := by
  obtain ⟨⟨ha, hb, hc, hd⟩, hx, hy, hz⟩ := group_spec x y z
  simp only [decodeLast?, value?_digit ha, value?_digit hb, value?_digit hc, value?_digit hd,
    Option.bind_eq_bind, Option.bind_some, if_neg (digit_ne_pad hc), if_neg (digit_ne_pad hd), hx, hy,
    hz, Option.pure_def]

theorem encode_ne_nil (h : b ≠ []) : encode b ≠ [] := by
  match b with
  | [_] => simp [encode]
  | [_, _] => simp [encode]
  | _ :: _ :: _ :: _ => simp [encode]

theorem decode?_encode (b : Bytes) : decode? (encode b) = some b := by
  induction b using encode.induct with
  | case1 => rfl
  | case2 x => exact decodeLast?_one x
  | case3 x y => exact decodeLast?_two x y
  | case4 x y z rest ih =>
    obtain ⟨⟨ha, hb, hc, hd⟩, hx, hy, hz⟩ := group_spec x y z
    rw [encode]
    by_cases hrest : rest = []
    · rw [hrest]
      exact decodeLast?_three x y z
    · rw [decode?]
      · simp only [value?_digit ha, value?_digit hb, value?_digit hc, value?_digit hd, ih, hx, hy, hz,
          Option.bind_eq_bind, Option.bind_some, Option.pure_def]
      · exact encode_ne_nil hrest

theorem mem_encode (h : c ∈ encode b) : c = '=' ∨ ∃ n < 64, c = digit n := by
  induction b using encode.induct with
  | case1 => cases h
  | case2 x =>
    obtain ⟨⟨ha, hb, -, -⟩, -⟩ := group_spec x 0 0
    simp only [encode, List.mem_cons, List.not_mem_nil, or_false] at h
    rcases h with h | h | h | h
    · exact .inr ⟨_, ha, h⟩
    · exact .inr ⟨_, hb, h⟩
    · exact .inl h
    · exact .inl h
  | case3 x y =>
    obtain ⟨⟨ha, hb, hc, -⟩, -⟩ := group_spec x y 0
    simp only [encode, List.mem_cons, List.not_mem_nil, or_false] at h
    rcases h with h | h | h | h
    · exact .inr ⟨_, ha, h⟩
    · exact .inr ⟨_, hb, h⟩
    · exact .inr ⟨_, hc, h⟩
    · exact .inl h
  | case4 x y z rest ih =>
    obtain ⟨⟨ha, hb, hc, hd⟩, -⟩ := group_spec x y z
    simp only [encode, List.mem_cons] at h
    rcases h with h | h | h | h | h
    · exact .inr ⟨_, ha, h⟩
    · exact .inr ⟨_, hb, h⟩
    · exact .inr ⟨_, hc, h⟩
    · exact .inr ⟨_, hd, h⟩
    · exact ih h

theorem isLetter_of_mem_encode (h : c ∈ encode b) : isLetter c = true := by
  obtain rfl | ⟨n, hn, rfl⟩ := mem_encode h
  · rfl
  · exact isLetter_digit hn

theorem ne_hyphen_of_value? {n : Nat} (h : value? c = some n) : c ≠ '-' := by
  rintro rfl
  cases h

theorem notMem_of_decodeLast? {a b d : Char} {out : Bytes} (h : decodeLast? a b c d = some out) :
    '-' ∉ [a, b, c, d] := by
  have hnone : value? '-' = none := rfl
  intro hmem
  simp only [List.mem_cons, List.not_mem_nil, or_false] at hmem
  rcases hmem with rfl | rfl | rfl | rfl <;> simp [decodeLast?, hnone] at h

theorem length_of_decodeLast? {a b d : Char} {out : Bytes} (h : decodeLast? a b c d = some out) :
    out.length ≤ 3 := by
  obtain ⟨x, -, h⟩ := Option.bind_eq_some_iff.mp h
  obtain ⟨y, -, h⟩ := Option.bind_eq_some_iff.mp h
  simp only at h
  by_cases hc : c = '='
  · rw [if_pos hc] at h
    split at h
    · cases h
      exact Nat.le_of_ble_eq_true rfl
    · cases h
  · rw [if_neg hc] at h
    obtain ⟨z, -, h⟩ := Option.bind_eq_some_iff.mp h
    by_cases hd : d = '='
    · rw [if_pos hd] at h
      split at h
      · cases h
        exact Nat.le_of_ble_eq_true rfl
      · cases h
    · rw [if_neg hd] at h
      obtain ⟨w, -, h⟩ := Option.bind_eq_some_iff.mp h
      cases h
      exact Nat.le_refl 3

/-- A text that is read has no hyphens, and four of its characters hold three bytes at most. -/
theorem shape_of_decode? {out : Bytes} (h : decode? cs = some out) :
    '-' ∉ cs ∧ 4 * out.length ≤ 3 * cs.length := by
  induction cs using decode?.induct generalizing out with
  | case1 =>
    cases h
    exact ⟨List.not_mem_nil, Nat.le_refl 0⟩
  | case2 a b c d =>
    exact ⟨notMem_of_decodeLast? h, Nat.mul_le_mul_left 4 (length_of_decodeLast? h)⟩
  | case3 a b c d rest hne ih =>
    rw [decode?] at h
    · obtain ⟨x, hx, h⟩ := Option.bind_eq_some_iff.mp h
      obtain ⟨y, hy, h⟩ := Option.bind_eq_some_iff.mp h
      obtain ⟨z, hz, h⟩ := Option.bind_eq_some_iff.mp h
      obtain ⟨w, hw, h⟩ := Option.bind_eq_some_iff.mp h
      obtain ⟨tail, htail, h⟩ := Option.bind_eq_some_iff.mp h
      cases h
      obtain ⟨hnone, hlength⟩ := ih htail
      constructor
      · simp only [List.mem_cons, not_or]
        exact ⟨(ne_hyphen_of_value? hx).symm, (ne_hyphen_of_value? hy).symm,
          (ne_hyphen_of_value? hz).symm, (ne_hyphen_of_value? hw).symm, hnone⟩
      · simp only [List.length_cons]
        omega
    · exact hne
  | case4 cs hnil hfour hmore =>
    rw [decode?] at h
    · cases h
    · exact hnil
    · exact hfour
    · exact hmore

end Base64

namespace Pem

open Base64

/-! ## Lines -/

def IsLineEnd (cs : List Char) : Prop := cs = ['\n'] ∨ cs = ['\r'] ∨ cs = ['\r', '\n']

theorem IsLineEnd.eq_cons (h : IsLineEnd cs) : ∃ c tail, cs = c :: tail ∧ (c = '\n' ∨ c = '\r') := by
  rcases h with rfl | rfl | rfl
  · exact ⟨_, _, rfl, .inl rfl⟩
  · exact ⟨_, _, rfl, .inr rfl⟩
  · exact ⟨_, _, rfl, .inr rfl⟩

theorem IsLineEnd.notMem (h : IsLineEnd cs) : '-' ∉ cs := by
  rcases h with rfl | rfl | rfl <;> decide

/-- A text with another line end in place of every line feed. -/
def withLineEnds (e cs : List Char) : List Char := cs.flatMap fun c => if c = '\n' then e else [c]

variable {e : List Char}

@[simp] theorem withLineEnds_append (e cs ds : List Char) :
    withLineEnds e (cs ++ ds) = withLineEnds e cs ++ withLineEnds e ds :=
  List.flatMap_append

@[simp] theorem withLineEnds_newline_cons (e cs : List Char) :
    withLineEnds e ('\n' :: cs) = e ++ withLineEnds e cs := by
  rw [withLineEnds, List.flatMap_cons, if_pos rfl]
  rfl

theorem withLineEnds_of_notMem (h : '\n' ∉ cs) : withLineEnds e cs = cs := by
  induction cs with
  | nil => rfl
  | cons c cs ih =>
    rw [List.mem_cons, not_or] at h
    rw [withLineEnds, List.flatMap_cons, if_neg (Ne.symm h.1)]
    exact congrArg (c :: ·) (ih h.2)

theorem withLineEnds_newline (cs : List Char) : withLineEnds ['\n'] cs = cs := by
  induction cs with
  | nil => rfl
  | cons c cs ih =>
    rw [withLineEnds, List.flatMap_cons]
    split_ifs with hc
    · exact congrArg₂ List.cons hc.symm ih
    · exact congrArg (c :: ·) ih

theorem hyphen_notMem_withLineEnds (he : IsLineEnd e) (h : '-' ∉ cs) : '-' ∉ withLineEnds e cs := by
  intro hmem
  obtain ⟨c, hc, hmem⟩ := List.mem_flatMap.mp hmem
  split_ifs at hmem
  · exact he.notMem hmem
  · exact h (List.mem_singleton.mp hmem ▸ hc)

theorem afterLineEnd?_append (he : IsLineEnd e) (hc : isLetter c = true) (rest : List Char) :
    afterLineEnd? (e ++ c :: rest) = some (c :: rest) := by
  simp only [isLetter, Bool.and_eq_true, bne_iff_ne] at hc
  rcases he with rfl | rfl | rfl
  · rfl
  · rw [List.singleton_append, afterLineEnd?]
    rintro _ h
    exact hc.1.2 (List.cons.inj h).1
  · rfl

theorem beforeLineEnd?_append (he : IsLineEnd e) {init : List Char} {d : Char} (hd : isLetter d = true) :
    beforeLineEnd? (init ++ [d] ++ e) = some (init ++ [d]) := by
  simp only [isLetter, Bool.and_eq_true, bne_iff_ne] at hd
  rcases he with rfl | rfl | rfl
  · simp only [beforeLineEnd?, List.reverse_append, List.reverse_cons, List.reverse_nil, List.nil_append,
      List.cons_append]
    split
    · exact absurd (List.cons.inj (List.cons.inj ‹_›).2).1 hd.2
    · rename_i h
      rw [← (List.cons.inj h).2, List.reverse_cons, List.reverse_reverse]
    · rename_i h
      exact absurd (List.cons.inj h).1 (by decide)
    · rename_i h _
      exact absurd rfl (h _)
  · simp [beforeLineEnd?]
  · simp [beforeLineEnd?]

theorem beforeLineEnd?_none {init : List Char} {d : Char} (hn : d ≠ '\n') (hr : d ≠ '\r') :
    beforeLineEnd? (init ++ [d]) = none := by
  simp only [beforeLineEnd?, List.reverse_append, List.reverse_cons, List.reverse_nil,
    List.nil_append, List.cons_append]
  split
  · exact absurd (List.cons.inj ‹_›).1 hn
  · exact absurd (List.cons.inj ‹_›).1 hn
  · exact absurd (List.cons.inj ‹_›).1 hr
  · rfl

/-- The text `body` is `cs` laid out on lines, without the line end of the last one. -/
structure Laid (cs body : List Char) : Prop where
  starts : ∃ c tail, body = c :: tail ∧ isLetter c = true
  ends : ∃ init d, body = init ++ [d] ∧ isLetter d = true
  length : cs.length ≤ body.length
  unwrap : ∀ count, cs.length ≤ count → unwrapUpTo? count body = some cs

theorem exists_cons_letter (hne : cs ≠ []) (hletter : ∀ c ∈ cs, isLetter c = true) :
    ∃ c tail, cs = c :: tail ∧ isLetter c = true := by
  obtain ⟨c, tail, rfl⟩ := List.exists_cons_of_ne_nil hne
  exact ⟨c, tail, rfl, hletter c List.mem_cons_self⟩

theorem Laid.short (hne : cs ≠ []) (hletter : ∀ c ∈ cs, isLetter c = true)
    (hlength : cs.length ≤ width) : Laid cs cs := by
  obtain h | ⟨init, d, hd⟩ := List.eq_nil_or_concat cs
  · exact absurd h hne
  rw [List.concat_eq_append] at hd
  have hdletter : isLetter d = true := hletter d (by simp [hd])
  refine ⟨exists_cons_letter hne hletter, ⟨init, d, hd, hdletter⟩, Nat.le_refl _, ?_⟩
  intro count hcount
  cases count with
  | zero => exact absurd (List.length_eq_zero_iff.mp (Nat.le_zero.mp hcount)) hne
  | succ count =>
    simp only [isLetter, Bool.and_eq_true, bne_iff_ne] at hdletter
    have hnone : beforeLineEnd? cs = none := by
      rw [hd]
      exact beforeLineEnd?_none hdletter.1.2 hdletter.2
    rw [unwrapUpTo?, List.drop_eq_nil_of_le hlength, hnone]
    rfl

theorem Laid.long (he : IsLineEnd e) (hletter : ∀ c ∈ cs, isLetter c = true) {body : List Char}
    (hlength : width < cs.length) (h : Laid (cs.drop width) body) :
    Laid cs (cs.take width ++ (e ++ body)) := by
  have htake : (cs.take width).length = width := by
    rw [List.length_take]
    omega
  have hdrop : (cs.drop width).length = cs.length - width := List.length_drop
  obtain ⟨init, d, hbody, hd⟩ := h.ends
  obtain ⟨c, tail, hbody', hc⟩ := h.starts
  obtain ⟨c₀, tail₀, he₀, -⟩ := he.eq_cons
  have hstarts : ∃ c tail, cs.take width ++ (e ++ body) = c :: tail ∧ isLetter c = true := by
    have hpos : 0 < (cs.take width).length := by
      rw [htake]
      decide
    obtain ⟨c, tail, hcons, hc⟩ := exists_cons_letter (List.ne_nil_of_length_pos hpos) fun c hc =>
      hletter c (List.mem_of_mem_take hc)
    exact ⟨c, tail ++ (e ++ body), by rw [hcons, List.cons_append], hc⟩
  refine ⟨hstarts, ⟨cs.take width ++ (e ++ init), d, by simp [hbody], hd⟩, ?_, ?_⟩
  · have := h.length
    rw [List.length_append, List.length_append, he₀, List.length_cons]
    omega
  · intro count hcount
    cases count with
    | zero => omega
    | succ count =>
      have hafter : (cs.take width ++ (e ++ body)).drop width = e ++ body := by
        rw [List.drop_append_of_le_length (by omega), List.drop_eq_nil_of_le (by omega),
          List.nil_append]
      have hbefore : (cs.take width ++ (e ++ body)).take width = cs.take width := by
        rw [List.take_append_of_le_length (by omega), List.take_of_length_le (by omega)]
      have hrest := h.unwrap count (by rw [hdrop]; simp only [width] at *; omega)
      have hempty : (e ++ body).isEmpty = false := by rw [he₀]; rfl
      have hline : afterLineEnd? (e ++ body) = some body := by
        rw [hbody']
        exact afterLineEnd?_append he hc tail
      simp only [unwrapUpTo?, hafter, hbefore, hempty, Bool.false_eq_true, if_false, hline, hrest,
        Option.bind_eq_bind, Option.bind_some, Option.pure_def, List.take_append_drop]

/-- A text of letters is laid out on lines from which it is put together again, whatever they end in. -/
theorem wrapUpTo_laid (he : IsLineEnd e) {count : Nat} (hne : cs ≠ [])
    (hletter : ∀ c ∈ cs, isLetter c = true) (hcount : cs.length ≤ count) :
    ∃ body, withLineEnds e (wrapUpTo count cs) = body ++ e ∧ Laid cs body := by
  induction count generalizing cs with
  | zero => exact absurd (List.length_eq_zero_iff.mp (Nat.le_zero.mp hcount)) hne
  | succ count ih =>
    have hempty : cs.isEmpty = false := by simpa using hne
    have hline : withLineEnds e (cs.take width) = cs.take width := by
      refine withLineEnds_of_notMem fun hfeed => ?_
      cases hletter _ (List.mem_of_mem_take hfeed)
    rw [wrapUpTo, if_neg (by simp [hempty]), withLineEnds_append, hline, withLineEnds_newline_cons]
    by_cases hlength : cs.length ≤ width
    · refine ⟨cs, ?_, .short hne hletter hlength⟩
      have hlast : withLineEnds e (wrapUpTo count []) = [] := by cases count <;> rfl
      rw [List.take_of_length_le hlength, List.drop_eq_nil_of_le hlength, hlast, List.append_nil]
    · have hdrop : (cs.drop width).length = cs.length - width := List.length_drop
      have hrest : cs.drop width ≠ [] := by
        rw [ne_eq, List.drop_eq_nil_iff]
        exact hlength
      have hcount' : (cs.drop width).length ≤ count := by
        rw [hdrop]
        simp only [width] at *
        omega
      obtain ⟨body, hwrap, hlaid⟩ := ih hrest (fun c hc => hletter c (List.mem_of_mem_drop hc)) hcount'
      exact ⟨_, by rw [hwrap, List.append_assoc, List.append_assoc], .long he hletter (by omega) hlaid⟩

theorem mem_wrapUpTo {count : Nat} (h : c ∈ wrapUpTo count cs) : c ∈ cs ∨ c = '\n' := by
  induction count generalizing cs with
  | zero => cases h
  | succ count ih =>
    rw [wrapUpTo] at h
    split_ifs at h
    · cases h
    · rw [List.mem_append, List.mem_cons] at h
      rcases h with h | h | h
      · exact .inl (List.mem_of_mem_take h)
      · exact .inr h
      · exact (ih h).imp_left List.mem_of_mem_drop

/-! ## Blocks -/

/-- Labels that are read up to the dashes after them. -/
def IsLabel (label : List Char) : Prop :=
  ∀ rest, splitLabel? false (label ++ '-' :: rest) = some (label, '-' :: rest)

/-- The text of a block without the line feed of its last line. -/
def Block.framed (b : Block) : List Char :=
  beginMark ++ (b.label.toList ++ (dashes ++ '\n' :: (wrap (Base64.encode b.contents) ++
    (endMark ++ b.label.toList ++ dashes))))

theorem Block.encodeChars_eq (b : Block) : b.encodeChars = b.framed ++ ['\n'] := by
  simp only [encodeChars, framed, List.append_assoc, List.cons_append]

theorem Block.encode_ne_empty {b : Block} : b.encode ≠ "" := by
  rw [encode, ne_eq, String.ofList_eq_empty_iff]
  exact List.cons_ne_nil _ _

theorem dropEnd?_append (pre ending : List Char) : dropEnd? ending (pre ++ ending) = some pre := by
  have h : ending.isSuffixOf (pre ++ ending) = true :=
    List.isSuffixOf_iff_suffix.mpr (List.suffix_append pre ending)
  rw [dropEnd?, if_pos h, List.length_append, Nat.add_sub_cancel, List.take_left]

theorem isPrefixOf_append (mark rest : List Char) : mark.isPrefixOf (mark ++ rest) = true :=
  List.isPrefixOf_iff_prefix.mpr (List.prefix_append mark rest)

theorem splitLabel?_notMem {mayBlank : Bool} {label rest : List Char}
    (h : splitLabel? mayBlank cs = some (label, rest)) : '\n' ∉ label := by
  induction cs generalizing mayBlank label with
  | nil =>
    cases h
    exact List.not_mem_nil
  | cons c cs ih =>
    have hfeed : '\n' ≠ c := by
      rintro rfl
      simp [splitLabel?, isLabelChar] at h
    rw [splitLabel?] at h
    split_ifs at h
    · cases h
      exact List.not_mem_nil
    all_goals
      obtain ⟨⟨label', rest'⟩, hsplit, h⟩ := Option.bind_eq_some_iff.mp h
      cases h
      exact List.not_mem_cons_of_ne_of_not_mem hfeed (ih hsplit)

theorem IsLabel.notMem {label : List Char} (h : IsLabel label) : '\n' ∉ label :=
  splitLabel?_notMem (h [])

/-- The text of a block is read as that block, whatever its lines end in. -/
theorem decodeChars?_withLineEnds (he : IsLineEnd e) {b : Block} (hlabel : IsLabel b.label.toList)
    (hne : b.contents ≠ []) : decodeChars? (withLineEnds e b.framed) = some b := by
  obtain ⟨body, hwrap, hlaid⟩ := wrapUpTo_laid he (encode_ne_nil hne)
    (fun _ hc => isLetter_of_mem_encode hc) (Nat.le_refl (Base64.encode b.contents).length)
  obtain ⟨init, d, hbody, hd⟩ := hlaid.ends
  obtain ⟨c, tail, hstart, hc⟩ := hlaid.starts
  have hframed : withLineEnds e b.framed = beginMark ++ (b.label.toList ++ (dashes ++
      (e ++ (body ++ e ++ (endMark ++ b.label.toList ++ dashes))))) := by
    have hmarks : '\n' ∉ beginMark ∧ '\n' ∉ endMark ∧ '\n' ∉ dashes := by decide
    simp only [Block.framed, withLineEnds_append, withLineEnds_newline_cons, wrap, hwrap,
      withLineEnds_of_notMem hmarks.1, withLineEnds_of_notMem hmarks.2.1, withLineEnds_of_notMem hmarks.2.2,
      withLineEnds_of_notMem hlabel.notMem]
  have hend : ∀ pre : List Char,
      beforeLineEnd? (pre ++ (endMark ++ b.label.toList ++ dashes)) = none := by
    intro pre
    have hdashes : dashes = ['-', '-', '-', '-'] ++ ['-'] := rfl
    rw [hdashes, ← List.append_assoc, ← List.append_assoc]
    exact beforeLineEnd?_none (by decide) (by decide)
  have hunwrap : unwrap? body = some (Base64.encode b.contents) := by
    have hnonempty : (!(Base64.encode b.contents).isEmpty) = true := by
      simpa using encode_ne_nil hne
    rw [unwrap?, hlaid.unwrap _ hlaid.length, Option.filter_some, if_pos hnonempty]
  have hsplit : ∀ rest, splitLabel? false (b.label.toList ++ (dashes ++ rest)) =
      some (b.label.toList, dashes ++ rest) := fun _ => hlabel _
  have hfirst : ∀ rest, afterLineEnd? (e ++ (body ++ e ++ rest)) = some (body ++ e ++ rest) := by
    rw [hstart]
    exact fun rest => afterLineEnd?_append he hc _
  have hline : beforeLineEnd? (body ++ e) = some body := by
    rw [hbody]
    exact beforeLineEnd?_append he hd
  rw [hframed, decodeChars?, if_pos (isPrefixOf_append _ _)]
  simp only [Option.bind_eq_bind, Option.bind_some, List.drop_left, hsplit, isPrefixOf_append, if_true,
    hfirst, hend, Option.getD_none, dropEnd?_append, hline, hunwrap, Base64.decode?_encode,
    String.ofList_toList, Option.pure_def]

/-- Without blanks at its ends, the document of a block lacks the last line feed only. -/
theorem trim_encodeChars (b : Block) : Text.trim b.encodeChars = b.framed := by
  have hfirst : ∃ rest, b.encodeChars = '-' :: rest := ⟨_, rfl⟩
  have hlast : ∃ init, b.framed = init ++ ['-'] := by
    have hdashes : dashes = ['-', '-', '-', '-'] ++ ['-'] := rfl
    refine ⟨beginMark ++ (b.label.toList ++ (dashes ++ '\n' :: (wrap (Base64.encode b.contents) ++
      (endMark ++ b.label.toList ++ ['-', '-', '-', '-'])))), ?_⟩
    simp only [Block.framed, hdashes, List.append_assoc, List.cons_append]
  obtain ⟨rest, hrest⟩ := hfirst
  obtain ⟨init, hinit⟩ := hlast
  have hdash : Text.isBlank '-' = false := by decide
  have hfeed : Text.isBlank '\n' = true := by decide
  have hdrop : b.encodeChars.dropWhile Text.isBlank = b.encodeChars := by
    rw [hrest, List.dropWhile_cons, hdash]
    rfl
  rw [Text.trim, hdrop, Block.encodeChars_eq, hinit, Text.trimEnd]
  simp only [List.reverse_append, List.reverse_cons, List.reverse_nil, List.nil_append,
    List.cons_append, List.dropWhile_cons, hfeed, if_true, hdash, Bool.false_eq_true, if_false,
    List.reverse_reverse]

/-! ## Texts that are read as blocks -/

variable {rest : List Char}

theorem afterLineEnd?_eq_some (h : afterLineEnd? cs = some rest) : ∃ e, IsLineEnd e ∧ cs = e ++ rest := by
  unfold afterLineEnd? at h
  split at h
  · cases h
    exact ⟨_, .inr (.inr rfl), rfl⟩
  · cases h
    exact ⟨_, .inr (.inl rfl), rfl⟩
  · cases h
    exact ⟨_, .inl rfl, rfl⟩
  · cases h

theorem beforeLineEnd?_eq_some (h : beforeLineEnd? cs = some rest) : ∃ e, IsLineEnd e ∧ cs = rest ++ e := by
  unfold beforeLineEnd? at h
  split at h
  next heq =>
    cases h
    exact ⟨_, .inr (.inr rfl), by simpa using congrArg List.reverse heq⟩
  next _ heq =>
    cases h
    exact ⟨_, .inl rfl, by simpa using congrArg List.reverse heq⟩
  next heq =>
    cases h
    exact ⟨_, .inr (.inl rfl), by simpa using congrArg List.reverse heq⟩
  next => cases h

theorem exists_lineEnd (cs : List Char) :
    ∃ e, cs = (beforeLineEnd? cs).getD cs ++ e ∧ '-' ∉ e := by
  cases h : beforeLineEnd? cs with
  | none => exact ⟨[], by simp, by simp⟩
  | some rest =>
    obtain ⟨e, he, hcs⟩ := beforeLineEnd?_eq_some h
    exact ⟨e, hcs, he.notMem⟩

/-- Lines are no shorter than what they hold, and have hyphens only if that has. -/
theorem shape_of_unwrapUpTo? {count : Nat} {out : List Char} (h : unwrapUpTo? count cs = some out)
    (hcount : cs.length ≤ count) : out.length ≤ cs.length ∧ ('-' ∉ out → '-' ∉ cs) := by
  induction count generalizing cs out with
  | zero =>
    cases h
    rw [List.eq_nil_of_length_eq_zero (Nat.le_zero.mp hcount)]
    exact ⟨Nat.le_refl 0, id⟩
  | succ count ih =>
    simp only [unwrapUpTo?] at h
    split_ifs at h with hlast
    · cases h
      obtain ⟨e, hcs, he⟩ := exists_lineEnd cs
      have hsum := congrArg List.length hcs
      rw [List.length_append] at hsum
      refine ⟨by omega, fun hout => ?_⟩
      rw [hcs, List.mem_append, not_or]
      exact ⟨hout, he⟩
    · obtain ⟨rest, hrest, h⟩ := Option.bind_eq_some_iff.mp h
      obtain ⟨tail, htail, h⟩ := Option.bind_eq_some_iff.mp h
      cases h
      obtain ⟨e, he, hdrop⟩ := afterLineEnd?_eq_some hrest
      have hall : cs = cs.take width ++ (e ++ rest) := by rw [← hdrop, List.take_append_drop]
      have hsum := congrArg List.length hall
      have hend : 0 < e.length := by
        obtain ⟨c, t, rfl, -⟩ := he.eq_cons
        exact Nat.succ_pos _
      simp only [List.length_append] at hsum
      obtain ⟨hlength, hnone⟩ := ih htail (by omega)
      constructor
      · rw [List.length_append]
        omega
      · intro hout
        rw [List.mem_append, not_or] at hout
        rw [hall]
        simp only [List.mem_append, not_or]
        exact ⟨hout.1, he.notMem, hnone hout.2⟩

theorem splitLabel?_eq_some {mayBlank : Bool} {label : List Char}
    (h : splitLabel? mayBlank cs = some (label, rest)) : cs = label ++ rest := by
  induction cs generalizing mayBlank label with
  | nil =>
    cases h
    rfl
  | cons c cs ih =>
    rw [splitLabel?] at h
    split_ifs at h
    · cases h
      rfl
    · obtain ⟨⟨label', rest'⟩, hsplit, h⟩ := Option.bind_eq_some_iff.mp h
      cases h
      rw [List.cons_append, ← ih hsplit]
    · obtain ⟨⟨label', rest'⟩, hsplit, h⟩ := Option.bind_eq_some_iff.mp h
      cases h
      rw [List.cons_append, ← ih hsplit]

theorem fromBegin?_eq_some (h : fromBegin? cs = some rest) :
    beginMark <+: rest ∧ ∃ before, cs = before ++ rest := by
  induction cs with
  | nil => cases h
  | cons c cs ih =>
    rw [fromBegin?] at h
    split_ifs at h with hnul hhere
    · cases h
      exact ⟨List.isPrefixOf_iff_prefix.mp hhere.2, [c], rfl⟩
    · obtain ⟨hmark, before, rfl⟩ := ih h
      exact ⟨hmark, c :: before, rfl⟩

/-- A line end, lines of letters and another line end. -/
structure IsBody (body : List Char) : Prop where
  notMem : '-' ∉ body
  eq_cons : ∃ c tail, body = c :: tail ∧ (c = '\n' ∨ c = '\r')

/-- What stands between the marks at both ends of a text with a label. -/
def between (label body : List Char) : List Char :=
  beginMark ++ label ++ dashes ++ (body ++ (endMark ++ label ++ dashes))

/-- The block that begins where its first mark stands. -/
def decodeFrom? (cs : List Char) : Option Block := do
  let (label, rest) ← splitLabel? false (cs.drop beginMark.length)
  let body ← if dashes.isPrefixOf rest then afterLineEnd? (rest.drop dashes.length) else none
  let body := (beforeLineEnd? body).getD body
  let body ← dropEnd? (endMark ++ label ++ dashes) body
  let text ← beforeLineEnd? body
  let contents ← Base64.decode? (← unwrap? text)
  return Block.mk (String.ofList label) contents

theorem dropEnd?_eq_some {ending : List Char} (h : dropEnd? ending cs = some rest) :
    cs = rest ++ ending := by
  unfold dropEnd? at h
  split_ifs at h with hsuffix
  cases h
  obtain ⟨before, rfl⟩ := List.isSuffixOf_iff_suffix.mp hsuffix
  rw [List.length_append, Nat.add_sub_cancel, List.take_left]

theorem decodeFrom?_eq_some {block : Block} (hmark : beginMark <+: cs) (h : decodeFrom? cs = some block) :
    ∃ body after, IsBody body ∧ cs = between block.label.toList body ++ after ∧
      4 * block.contents.length ≤ 3 * body.length := by
  obtain ⟨⟨label, rest⟩, hlabel, h⟩ := Option.bind_eq_some_iff.mp h
  simp only at h
  split_ifs at h with hdashes
  · obtain ⟨lines, hlines, h⟩ := Option.bind_eq_some_iff.mp h
    obtain ⟨inner, hinner, h⟩ := Option.bind_eq_some_iff.mp h
    obtain ⟨text, htext, h⟩ := Option.bind_eq_some_iff.mp h
    obtain ⟨letters, hletters, h⟩ := Option.bind_eq_some_iff.mp h
    obtain ⟨contents, hcontents, h⟩ := Option.bind_eq_some_iff.mp h
    cases h
    -- the text is put together again from its parts, from the inside outwards
    obtain ⟨first, hfirst, hbegin⟩ := afterLineEnd?_eq_some hlines
    obtain ⟨last, hlast, hend⟩ := beforeLineEnd?_eq_some htext
    obtain ⟨after, hafter, -⟩ := exists_lineEnd lines
    obtain ⟨hnone, hbytes⟩ := Base64.shape_of_decode? hcontents
    obtain ⟨hshorter, hhyphens⟩ :=
      shape_of_unwrapUpTo? (Option.filter_eq_some_iff.mp hletters).1 (Nat.le_refl _)
    have hplain : '-' ∉ text := hhyphens hnone
    refine ⟨first ++ text ++ last, after, ⟨?_, ?_⟩, ?_, ?_⟩
    · simp only [List.mem_append, not_or]
      exact ⟨⟨hfirst.notMem, hplain⟩, hlast.notMem⟩
    · obtain ⟨c, tail, rfl, hc⟩ := hfirst.eq_cons
      exact ⟨c, tail ++ text ++ last, rfl, hc⟩
    · rw [dropEnd?_eq_some hinner, hend] at hafter
      have hrest := List.prefix_iff_eq_append.mp (List.isPrefixOf_iff_prefix.mp hdashes)
      rw [← List.prefix_iff_eq_append.mp hmark, splitLabel?_eq_some hlabel, ← hrest, hbegin, hafter,
        String.toList_ofList]
      simp only [between, List.append_assoc]
    · simp only [List.length_append]
      omega
  · cases h

/-- A text that is read as a block holds it, with its marks, and is longer than what the block holds. -/
theorem decodeChars?_eq_some {block : Block} (h : decodeChars? cs = some block) :
    ∃ before body after, IsBody body ∧ cs = before ++ between block.label.toList body ++ after ∧
      4 * block.contents.length ≤ 3 * body.length := by
  unfold decodeChars? at h
  split_ifs at h with hstart
  · obtain ⟨body, after, hbody, hcs, hlength⟩ :=
      decodeFrom?_eq_some (List.isPrefixOf_iff_prefix.mp hstart) h
    exact ⟨[], body, after, hbody, hcs, hlength⟩
  · obtain ⟨ds, hds, hrest⟩ := Option.bind_eq_some_iff.mp h
    obtain ⟨hmark, before, hcs⟩ := fromBegin?_eq_some hds
    obtain ⟨body, after, hbody, hblock, hlength⟩ := decodeFrom?_eq_some hmark hrest
    exact ⟨before, body, after, hbody, by rw [hcs, hblock, List.append_assoc], hlength⟩

theorem length_contents_le {block : Block} (h : decodeChars? cs = some block) :
    4 * block.contents.length ≤ 3 * cs.length := by
  obtain ⟨before, body, after, -, rfl, hlength⟩ := decodeChars?_eq_some h
  simp only [between, List.length_append]
  omega

end Pem

end KeyCustody
