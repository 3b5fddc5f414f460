import ApiTypes.Command.Run

namespace ApiTypes.Command

def reason (e : IO.Error) : String :=
  match e with
  | .noFileOrDirectory _ code details | .alreadyExists (some _) code details
  | .inappropriateType (some _) code details | .permissionDenied (some _) code details
  | .invalidArgument (some _) code details | .resourceExhausted (some _) code details =>
    details ++ " (os error " ++ toString code ++ ")"
  | e => toString e

def attempt {α : Type} (action : IO α) : IO (Except String α) := do
  return (← action.toBaseIO).mapError reason

def realFiles : Files.Access IO where
  read path := attempt (IO.FS.readFile path)
  isFile path := do
    match ← (IO.FS.readFile path).toBaseIO with
    | .ok _ => return true
    | .error (.noFileOrDirectory ..) | .error (.inappropriateType ..) => return false
    | .error _ => return true
  makeDirectory path := attempt (IO.FS.createDirAll path)
  write path text := attempt (IO.FS.writeFile path text)

def usageText : String :=
  "\n".intercalate [
    "Usage: routetypes generate --input FILE [OPTIONS]",
    "       routetypes schema --input FILE [--ignore-head]",
    "",
    "Options of generate:",
    "  --config FILE        the configuration, instead of routetypes.toml",
    "  --ignore-head        leave HEAD routes out",
    "  -o, --output PATH    an output, instead of those of the configuration",
    "  --target TARGET      serverTypes or clientTypes, for the output at the same position",
    "  --schema-out PATH    write the document as well",
    "  --check              write nothing, and fail if anything would change",
    ""]

def runWords (words : List String) : IO UInt32 := do
  match Request.ofWords words with
  | .error .help =>
    IO.print usageText
    return 0
  | .error .version =>
    IO.print versionText
    return 0
  | .error .misuse =>
    IO.eprint usageText
    return 2
  | .ok request =>
    let workDir ← IO.currentDir
    let result ← request.run realFiles workDir.toString
    IO.print result.printed
    if let some f := result.failure then
      IO.eprintln f.message
    return result.code.toUInt32

end ApiTypes.Command

def main (words : List String) : IO UInt32 :=
  ApiTypes.Command.runWords words
