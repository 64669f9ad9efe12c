import BeanCodegen.Plugin
/-! # The plugin program

`protoc-gen-bean` reads a serialized request from standard input, or from the file named by
`--request`, and writes the serialized response to standard output. With `--describe` it
prints the JSON description of the request's schema graph instead. `--dump-request` saves
the request bytes to a file first. The exit status is 0 when generation succeeded and 1
otherwise; a request that cannot be read is still answered with an error response, so that
the error reaches the caller.
-/

namespace BeanCodegen

/-- What the command line asks for. -/
structure Invocation where
  request : Option String := none
  dumpRequest : Option String := none
  describe : Bool := false
  help : Bool := false
  deriving Inhabited, Repr

/-- The usage line. -/
def usageLine : String := "Usage: protoc-gen-bean [OPTIONS]"

/-- The text of `--help`. -/
def helpText : String :=
  "protoc plugin generating Java value objects and protobuf-java converters\n\n" ++
  usageLine ++ "\n\n" ++
  "Options:\n" ++
  "      --request <FILE>       Read the CodeGeneratorRequest from a file instead of stdin\n" ++
  "      --dump-request <FILE>  Save the raw request bytes to a file before generating\n" ++
  "      --describe             Print the resolved schema graph as JSON instead of generating\n" ++
  "  -h, --help                 Print help"

/-- The complaint about an argument the program does not take. -/
def unexpectedArgument (arg : String) : String :=
  "error: unexpected argument \x27" ++ arg ++ "\x27 found\n\n" ++ usageLine ++
  "\n\nFor more information, try \x27--help\x27."

/-- The complaint about an option given without its value. -/
def missingValue (option : String) : String :=
  "error: a value is required for \x27" ++ option ++ " <FILE>\x27 but none was supplied\n\n" ++
  "For more information, try \x27--help\x27."

/-- Reads the arguments into an invocation, or the complaint about them. -/
def Invocation.parse (inv : Invocation) : List String → Except String Invocation
  | [] => .ok inv
  | "--describe" :: rest => Invocation.parse { inv with describe := true } rest
  | "--help" :: _ | "-h" :: _ => .ok { inv with help := true }
  | ["--request"] => .error (missingValue "--request")
  | ["--dump-request"] => .error (missingValue "--dump-request")
  | "--request" :: v :: rest => Invocation.parse { inv with request := some v } rest
  | "--dump-request" :: v :: rest => Invocation.parse { inv with dumpRequest := some v } rest
  | arg :: rest =>
    if arg.startsWith "--request=" then
      Invocation.parse { inv with request := some (arg.drop 10).toString } rest
    else if arg.startsWith "--dump-request=" then
      Invocation.parse { inv with dumpRequest := some (arg.drop 15).toString } rest
    else .error (unexpectedArgument arg)

/-- The response reporting a failure to read or write a file. -/
def ioFailure (message : String) : ByteArray :=
  Response.encode { error := some ("I/O error: " ++ message), files := [] }

end BeanCodegen

open BeanCodegen

/-- Reads a stream to its end. -/
partial def readToEnd (s : IO.FS.Stream) (acc : ByteArray) : IO ByteArray := do
  let chunk ← s.read 65536
  if chunk.isEmpty then return acc else readToEnd s (acc ++ chunk)

/-- Reads the request, saves it when asked, and answers it. -/
def runPlugin (inv : Invocation) : IO UInt32 := do
  let stdout ← IO.getStdout
  let stderr ← IO.getStderr
  let input ← try
      let bytes ← match inv.request with
        | some path => IO.FS.readBinFile path
        | none => do readToEnd (← IO.getStdin) ByteArray.empty
      if let some path := inv.dumpRequest then IO.FS.writeBinFile path bytes
      pure (Except.ok bytes)
    catch e => pure (Except.error (toString e))
  match input with
  | .error message =>
    stderr.putStrLn ("protoc-gen-bean failed: I/O error: " ++ message)
    if !inv.describe then stdout.write (ioFailure message)
    return 1
  | .ok bytes =>
    if inv.describe then
      match describeBytes bytes with
      | .ok text =>
        stdout.putStrLn text
        return 0
      | .error e =>
        stderr.putStrLn ("protoc-gen-bean failed: " ++ e.message)
        return 1
    else
      let (out, ok) := answerBytes bytes
      stdout.write out
      stdout.flush
      return if ok then 0 else 1

/-- The plugin's entry point. -/
def main (args : List String) : IO UInt32 := do
  match Invocation.parse {} args with
  | .error complaint =>
    (← IO.getStderr).putStrLn complaint
    return 2
  | .ok inv =>
    if inv.help then
      IO.println helpText
      return 0
    runPlugin inv
