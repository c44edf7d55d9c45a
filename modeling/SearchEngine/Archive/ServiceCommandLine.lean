import SearchEngine.Files.LexicalPath

/-!
# The command line of a service

`buildServiceImagePath` writes the command line under which a service is registered.
`parseServiceInvocation` reads it back through `CommandLineToArgvW`; the configuration tool
reads the data directory of it with a tokenizer of its own.
-/

namespace SearchEngine.Archive

open SearchEngine.Files

/-- What Windows does with a text that is a path. -/
structure WindowsSystem where
  /-- `ExpandEnvironmentStringsW`, if it does not fail. -/
  expandEnvironmentStrings : Path → Option Path
  /-- `std::filesystem::absolute`, if it does not fail. -/
  fullPath : Path → Option Path

/-- The text up to its first terminator, as `c_str()` hands it on. -/
def cText (text : Path) : Path := text.takeWhile (· ≠ '\x00')

def WindowsSystem.absoluteNormalized (windows : WindowsSystem) (value : Path) : Path :=
  lexicallyNormal ((windows.fullPath value).getD value)

def WindowsSystem.expandEnvironment (windows : WindowsSystem) (value : Path) : Option Path :=
  windows.expandEnvironmentStrings (cText value)

/-! ## CommandLineToArgvW -/

/-- The arguments after the program: whether the text is inside quotes, the backslashes read
last, and the argument so far. -/
def readArguments (quoted : Bool) (slashes : Nat) (current : Option Path) : Path → List Path
  | [] => (current.map (· ++ List.replicate slashes '\\')).toList
  | c :: rest =>
      if c = '\\' then readArguments quoted (slashes + 1) (some (current.getD [])) rest
      else if c = '"' then
        let kept := current.getD [] ++ List.replicate (slashes / 2) '\\'
        if slashes % 2 = 0 then readArguments (!quoted) 0 (some kept) rest
        else readArguments quoted 0 (some (kept ++ ['"'])) rest
      else if !quoted && (c = ' ' || c = '\t') then
        (current.map (· ++ List.replicate slashes '\\')).toList ++ readArguments false 0 none rest
      else readArguments quoted 0 (some (current.getD [] ++ List.replicate slashes '\\' ++ [c])) rest

/-- `CommandLineToArgvW`: in the name of the program a backslash is a character like any other. -/
def commandLineToArgv : Path → List Path
  | '"' :: rest =>
      rest.takeWhile (· ≠ '"') :: readArguments false 0 none ((rest.dropWhile (· ≠ '"')).drop 1)
  | text =>
      text.takeWhile (fun c => c ≠ ' ' && c ≠ '\t') ::
        readArguments false 0 none (text.dropWhile fun c => c ≠ ' ' && c ≠ '\t')

/-! ## ServiceArchive -/

/-- The loop of `quoteArgument` with the backslashes it holds back, and the last of them. -/
def quoteBody (slashes : Nat) : Path → Path
  | [] => List.replicate (slashes * 2) '\\'
  | ch :: rest =>
      if ch = '\\' then quoteBody (slashes + 1) rest
      else if ch = '"' then List.replicate (slashes * 2 + 1) '\\' ++ '"' :: quoteBody 0 rest
      else List.replicate slashes '\\' ++ ch :: quoteBody 0 rest

def quoteArgument (value : Path) : Path := '"' :: (quoteBody 0 value ++ ['"'])

def serviceFlag : Path := "--service".toList
def serviceNameFlag : Path := "--service-name".toList
def dataDirFlag : Path := "--data-dir".toList
def baseDirFlag : Path := "--base-dir".toList

structure ServiceInvocation where
  imagePath : Path
  executable : Path
  dataDirectory : Path
  serviceNameArgument : Path
deriving DecidableEq

/-- The text of the command line. -/
def serviceImage (executable serviceName dataDirectory : Path) : Path :=
  quoteArgument executable ++ ' ' :: (serviceFlag ++ ' ' :: (serviceNameFlag ++ ' ' ::
    (quoteArgument serviceName ++ ' ' :: (dataDirFlag ++ ' ' :: quoteArgument dataDirectory))))

/-- `buildServiceImagePath`. -/
def buildServiceImagePath (windows : WindowsSystem) (executable serviceName dataDirectory : Path) :
    Except String Path :=
  if serviceName.isEmpty then .error "service name is empty"
  else .ok (serviceImage (windows.absoluteNormalized executable) serviceName (windows.absoluteNormalized dataDirectory))

/-- What the loop of `parseServiceInvocation` has read. -/
structure ServiceArguments where
  service : Bool
  name : Path
  data : Option Path

/-- The loop of `parseServiceInvocation` over the arguments. -/
def readServiceArguments (windows : WindowsSystem) : ServiceArguments → List Path → Except String ServiceArguments
  | read, [] => .ok read
  | read, [argument] => .ok (if argument = serviceFlag then { read with service := true } else read)
  | read, argument :: value :: rest =>
      if argument = serviceFlag then readServiceArguments windows { read with service := true } (value :: rest)
      else if argument = serviceNameFlag then readServiceArguments windows { read with name := value } rest
      else if argument = dataDirFlag || argument = baseDirFlag then
        if read.data.isSome then .error "service ImagePath has duplicate data-dir"
        else
          match windows.expandEnvironment value with
          | none => .error "ExpandEnvironmentStringsW failed"
          | some data => readServiceArguments windows { read with data := some data } rest
      else readServiceArguments windows read (value :: rest)

/-- The data directory that an argument means. -/
def WindowsSystem.dataDirectory (windows : WindowsSystem) (executable data : Path) : Path :=
  if isAbsolutePath data then windows.absoluteNormalized data
  else windows.absoluteNormalized (joinPath (parentPath executable) data)

/-- `parseServiceInvocation`. -/
def parseServiceInvocation (windows : WindowsSystem) (imagePath : Path) : Except String ServiceInvocation :=
  match commandLineToArgv (cText imagePath) with
  | [] => .error "cannot parse service ImagePath"
  | program :: arguments =>
      match windows.expandEnvironment program with
      | none => .error "ExpandEnvironmentStringsW failed"
      | some expanded =>
          match readServiceArguments windows ⟨false, [], none⟩ arguments with
          | .error message => .error message
          | .ok read =>
              if !read.service then .error "service ImagePath has no --service flag"
              else
                match read.data with
                | none | some [] => .error "service ImagePath has no --data-dir"
                | some data =>
                    .ok {
                      imagePath := imagePath
                      executable := windows.absoluteNormalized expanded
                      dataDirectory := windows.dataDirectory (windows.absoluteNormalized expanded) data
                      serviceNameArgument := read.name }

/-! ## The configuration tool -/

/-- What ends a token. -/
def tokenStop (quoted : Bool) : Char := if quoted then '"' else ' '

/-- The tokens of `parseDataDirFromImagePath`; a token is read to its quote or to a space. -/
def readTokens : Option (Bool × Path) → Path → List Path
  | none, [] => []
  | some (_, token), [] => [token]
  | none, c :: rest =>
      if c = ' ' then readTokens none rest
      else if c = '"' then readTokens (some (true, [])) rest
      else readTokens (some (false, [c])) rest
  | some (quoted, token), c :: rest =>
      if c = tokenStop quoted then token :: readTokens none rest
      else readTokens (some (quoted, token ++ [c])) rest

/-- The token after the first `--data-dir`. -/
def findDataDir : List Path → Option Path
  | token :: next :: rest => if token = dataDirFlag then some next else findDataDir (next :: rest)
  | [_] | [] => none

/-- `parseDataDirFromImagePath`. -/
def parseDataDirFromImagePath (imagePath : Path) : Option Path := findDataDir ((readTokens none imagePath).drop 1)

end SearchEngine.Archive
