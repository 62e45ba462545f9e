import RegisterLang.CommandLine.Execute

/-! # The command -/

namespace RegisterLang

def FileError.ofIO (e : IO.Error) : FileError :=
  match e with
  | .noFileOrDirectory .. => .notFound
  | .inappropriateType _ 20 _ => .notDirectory
  | .inappropriateType _ 21 _ => .isDirectory
  | e => .other (toString e)

def FileSystem.native : FileSystem IO where
  read := fun path => do
    try
      return .ok (← IO.FS.readBinFile path).toList
    catch e => return .error (.ofIO e)
  write := fun path bytes => do
    try
      IO.FS.writeBinFile path ⟨bytes.toArray⟩
      return .ok ()
    catch e => return .error (.ofIO e)

end RegisterLang

def main (args : List String) : IO UInt32 := do
  let outcome ← RegisterLang.CommandLine.execute RegisterLang.FileSystem.native .none args
  let stdout ← IO.getStdout
  stdout.putStr outcome.stdout
  stdout.flush
  let stderr ← IO.getStderr
  stderr.putStr outcome.stderr
  stderr.flush
  return outcome.status.toUInt32
