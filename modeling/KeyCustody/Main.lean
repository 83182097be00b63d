import KeyCustody.CommandLine
/-! # The program

Runs the command line on the machine: files by their paths, random bytes of the system, prompts on the
terminal. Two calls are only as good as what the machine offers here. It has no way to keep the terminal from
repeating what is typed, so passwords are concealed by the terminal's own means; and none to wait until a file is
stored, so that `sync` goes as far as handing the contents over to the system. -/

namespace KeyCustody.Main

/-- The fault that an error of the machine is. -/
def faultOf (e : IO.Error) : IoFault :=
  let kind : IoKind :=
    match e with
    | .noFileOrDirectory .. => .notFound
    | .alreadyExists .. => .alreadyExists
    | .resourceBusy .. => .busy
    | .unexpectedEof => .inputExhausted
    | .inappropriateType _ code _ => if code = 21 then .isADirectory else .notADirectory
    | .invalidArgument _ code _ => if code = 36 then .nameTooLong else .other
    | _ => .other
  ⟨kind, toString e⟩

def attempt {α : Type} (call : IO α) : IO (IoResult α) := do
  try
    return .ok (← call)
  catch e => return .error (faultOf e)

/-- The terminal's signs for text that is not shown, and for text that is shown again. -/
def conceal : String := "\x1b[8m"
def reveal : String := "\x1b[28m"

def say (screen : IO.FS.Handle) (text : String) : IO Unit := do
  screen.putStr text
  screen.flush

/-- Asks for a password on the terminal. -/
def ask (text : String) : IO String := do
  let screen ← IO.FS.Handle.mk "/dev/tty" .write
  let keyboard ← IO.FS.Handle.mk "/dev/tty" .read
  say screen (text ++ conceal)
  let line ← try keyboard.getLine finally say screen reveal
  if line = "" then throw .unexpectedEof
  return ((line.dropEndWhile '\n').dropEndWhile '\r').toString

def bytesOf (b : ByteArray) : Bytes := b.data.toList

def arrayOf (b : Bytes) : ByteArray := ⟨b.toArray⟩

def textOf (file : Temporary) : String := "/".intercalate file.location.reverse

def createIn (directory : Path) : (attempts : Nat) → IO Temporary
  | 0 => throw (.userError "no name for a temporary file")
  | attempts + 1 => do
    let name := ".tmp" ++ Hex.encode (bytesOf (← IO.getRandomBytes 6))
    let file : Temporary := ⟨[name, directory.text]⟩
    try
      discard (IO.FS.Handle.mk ⟨textOf file⟩ .writeNew)
      return file
    catch
      | .alreadyExists .. => createIn directory attempts
      | e => throw e

def appendTo (file : Temporary) (contents : Bytes) : IO Unit := do
  let handle ← IO.FS.Handle.mk ⟨textOf file⟩ .append
  handle.write (arrayOf contents)
  handle.flush

def perform {α : Type} : Program α → IO α
  | .done a => return a
  | .workingDirectory next => do
    let here ← attempt IO.currentDir
    perform (next (here.map fun directory => ⟨directory.toString⟩))
  | .prompt text next => do perform (next (← attempt (ask text)))
  | .noteMismatch next => do
    IO.eprintln Password.mismatchNotice
    perform (next ())
  | .random count next => do
    let drawn ← attempt (IO.getRandomBytes count.toUSize)
    perform (next (drawn.toOption.map bytesOf))
  | .readBytes path next => do
    let contents ← attempt (IO.FS.readBinFile ⟨path.text⟩)
    perform (next (contents.map bytesOf))
  | .makeDirectory path next => do perform (next (← attempt (IO.FS.createDir ⟨path.text⟩)))
  | .isDirectory path next => do perform (next (← (← IO.currentDir) / path.text |>.isDir))
  | .makeTemporary directory next => do perform (next (← attempt (createIn directory 100)))
  | .append file contents next => do perform (next (← attempt (appendTo file contents)))
  | .sync file next => do perform (next (← attempt (appendTo file [])))
  | .move file path next => do
    perform (next (← attempt (IO.FS.rename ⟨textOf file⟩ ⟨path.text⟩)))
  | .discard file next => do
    discard (attempt (IO.FS.removeFile ⟨textOf file⟩))
    perform (next ())

end KeyCustody.Main

def main (arguments : List String) : IO UInt32 := do
  let r ← KeyCustody.Main.perform (KeyCustody.CommandLine.run arguments)
  IO.print r.stdout
  IO.eprint r.stderr
  return r.exit
