import RegisterLang.Codefile.Listing
import RegisterLang.Codefile.Read
import RegisterLang.Codefile.Write

/-! # Access to files

What reads and writes files is written for any monad that offers the two actions, so it runs on a real
file system as well as on a workspace held in memory.
-/

namespace RegisterLang

structure FileSystem (m : Type → Type) where
  read : String → m (Except FileError (List UInt8))
  write : String → List UInt8 → m (Except FileError Unit)

namespace FileSystem

variable {m : Type → Type} [Monad m]

def readText (fs : FileSystem m) (path : String) : m (Except FileError String) := do
  match ← fs.read path with
  | .error e => return .error e
  | .ok bytes =>
    match Utf8.decode? bytes with
    | some text => return .ok text
    | none => return .error .invalidUtf8

def writeText (fs : FileSystem m) (path text : String) : m (Except FileError Unit) :=
  fs.write path (Utf8.encode text)

def readCodefile (fs : FileSystem m) (path : String) : m (Except Codefile.LoadError Codefile) := do
  match ← fs.read path with
  | .error .notFound => return .error (.notExists path)
  | .error e => return .error (.file e)
  | .ok bytes => return Codefile.decode bytes

def writeCodefile (fs : FileSystem m) (path : String) (f : Codefile) : m (Except String Unit) := do
  match f.encode with
  | .error e => return .error e.message
  | .ok bytes => return (← fs.write path bytes).mapError FileError.message

end FileSystem

end RegisterLang
