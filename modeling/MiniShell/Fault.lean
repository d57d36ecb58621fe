/-
This file lists everything that can go wrong while a command line is run, with the
wording of each cause. A session goes on after the faults that have a label; the
others end it.
-/

import MiniShell.Pattern.Flaw
import MiniShell.Text.Numeral
import MiniShell.Text.Quoted
import MiniShell.Text.Utf8

namespace MiniShell

/-! ### Refusals of the file system -/

/-- Why the file system refuses an operation. -/
inductive SystemError
  | noEntry
  | busy
  | entryExists
  | notDirectory
  | isDirectory
  | invalid
  | nameTooLong
  | notEmpty
  deriving DecidableEq, Repr

namespace SystemError

/-- The number of a refusal. -/
def number : SystemError → Nat
  | noEntry => 2
  | busy => 16
  | entryExists => 17
  | notDirectory => 20
  | isDirectory => 21
  | invalid => 22
  | nameTooLong => 36
  | notEmpty => 39

/-- The wording of a refusal. -/
def wording : SystemError → Text
  | noEntry => "No such file or directory"
  | busy => "Device or resource busy"
  | entryExists => "File exists"
  | notDirectory => "Not a directory"
  | isDirectory => "Is a directory"
  | invalid => "Invalid argument"
  | nameTooLong => "File name too long"
  | notEmpty => "Directory not empty"

end SystemError

/-! ### Faults -/

/-- The kinds of complaint that commands make themselves. -/
inductive Grievance
  | argument
  | application
  | directory
  | file
  | flag
  | redirect
  deriving DecidableEq, Repr

namespace Grievance

/-- The name of a kind of complaint. -/
def label : Grievance → Text
  | argument => "ArgumentError"
  | application => "ApplicationError"
  | directory => "DirectoryError"
  | file => "FileError"
  | flag => "FlagError"
  | redirect => "RedirectError"

/-- What is said when nothing more is known. -/
def wording : Grievance → Text
  | argument => "Incorrect number of arguments passed"
  | application => "Application error"
  | directory => "Invalid or non-existent directory"
  | file => "Invalid or non-existent file"
  | flag => "Incorrect flags passed"
  | redirect => "Incorrect redirection"

end Grievance

/-- What goes wrong. -/
inductive Fault
  /-- A complaint in words of its own. -/
  | stated (grievance : Grievance) (wording : Text)
  /-- A command without a body was run. -/
  | noBody
  /-- There is no command of this name. -/
  | unsupported (name : Text)
  /-- Standard input is empty. -/
  | noInput
  /-- Too few or too many arguments; the usage of the command follows. -/
  | wrongCount (usage : Text)
  /-- Too few or too many arguments for copying or moving. -/
  | insufficient
  /-- The expression of a substitution has not four parts. -/
  | badSubstitution (expression : Text)
  /-- The pattern of a search through files is no pattern. -/
  | badSearch (pattern : Text)
  /-- A word with a star names no file. -/
  | noMatches (word : Text)
  /-- Flags that the command does not have; the wording names them. -/
  | wrongFlags (wording : Text)
  /-- No colour of this name. -/
  | badColour (name : Text)
  /-- No font of this name. -/
  | badFont (name : Text)
  /-- No option of this name. -/
  | badOption (name : Text)
  /-- No counter for this flag. -/
  | badFlag (flag : Text)
  /-- The file to read does not exist. -/
  | fileMissing (name : Text)
  /-- The named file does not exist. -/
  | namedFileMissing (name : Text)
  /-- The file to create exists. -/
  | fileExists (name : Text)
  /-- The source of a copy does not exist. -/
  | copySourceMissing (name : Text)
  /-- The target of a copy exists. -/
  | copyTargetExists (name : Text)
  /-- A file cannot be copied as a directory is. -/
  | copiesFileRecursively
  /-- A directory cannot be copied to where a file is. -/
  | copiesDirectoryOntoFile
  /-- The source of a move does not exist. -/
  | moveSourceMissing (name : Text)
  /-- The target of a move exists. -/
  | moveTargetExists
  /-- The directory does not exist. -/
  | directoryMissing (name : Text)
  /-- The directory to search does not exist. -/
  | badDirectory (name : Text)
  /-- The directory to create exists. -/
  | directoryExists
  /-- The directory to remove is not empty. -/
  | directoryNotEmpty (name : Text)
  /-- Only files can be removed this way. -/
  | removesDirectory (name : Text)
  /-- More than one redirection of the same direction. -/
  | tooManyRedirections
  /-- Input from a file and from a pipe. -/
  | inputTwice
  /-- The file to read input from does not exist. -/
  | inputMissing
  /-- A text that should be a whole number is none. -/
  | numeral (cause : Text.NumeralFault)
  /-- A range with more than two ends. -/
  | tooManyEnds
  /-- A file name with a null character. -/
  | nullCharacter
  /-- The shell was started with a wrong number of arguments. -/
  | wrongStart
  /-- The shell was started with an argument it does not know. -/
  | unexpectedStart (argument : Text)
  /-- Bytes that are no text. -/
  | undecodable (cause : Text.DecodeFault)
  /-- A flaw in a pattern or in a replacement. -/
  | pattern (flaw : Pattern.Flaw)
  /-- A list has no such item. -/
  | listIndex
  /-- A text has no such character. -/
  | textIndex
  /-- An output was taken from a stack that holds none. -/
  | emptyStack
  /-- An output was asked of a stack that holds none. -/
  | stackIndex
  /-- The grammar has no guards for a rule of this number. -/
  | noGuard (rule : Int)
  /-- The file system refused an operation on these paths. -/
  | system (error : SystemError) (paths : List Text)
  /-- A command asked to leave the shell. -/
  | leave
  /-- The user interrupted the shell. -/
  | interrupt
  /-- The input of the shell is over. -/
  | endOfInput
  deriving DecidableEq

namespace Fault

/-- How a wrong sequence of bytes is worded. -/
def decodeMessage (cause : Text.DecodeFault) : Text :=
  let what : Text :=
    if cause.length = 1 then
      "byte 0x".toList ++ Text.hex 2 cause.byte.toNat ++ " in position ".toList ++
        Text.ofNat cause.position
    else
      "bytes in position ".toList ++ Text.ofNat cause.position ++ "-".toList ++
        Text.ofNat (cause.position + cause.length - 1)
  let why : Text :=
    match cause.flaw with
    | .badStart => "invalid start byte"
    | .badContinuation => "invalid continuation byte"
    | .unfinished => "unexpected end of data"
  "'utf-8' codec can't decode ".toList ++ what ++ ": ".toList ++ why

/-- How too long a numeral is worded. -/
def tooLongMessage (digits : Nat) : Text :=
  "Exceeds the limit (4300 digits) for integer string conversion: value has ".toList ++
    Text.ofNat digits ++
    " digits; use sys.set_int_max_str_digits() to increase the limit".toList

/-- How a wrong numeral is worded. At most two hundred characters of it are shown. -/
def numeralMessage : Text.NumeralFault → Text
  | .malformed text =>
    "invalid literal for int() with base 10: ".toList ++ (Text.quoted text).take 200
  | .tooLong digits => tooLongMessage digits

/-- How a flaw in a pattern is worded. -/
def flawMessage : Pattern.Flaw → Text
  | .malformed reason position text => Pattern.malformedMessage reason position text
  | .repetition => "the repetition number is too large"
  | .count digits => tooLongMessage digits
  | .scripts => "ASCII and UNICODE flags are incompatible"
  | .unknownGroup name => "unknown group name ".toList ++ Text.quoted name

/-- How a refusal of the file system is worded. -/
def systemMessage (error : SystemError) (paths : List Text) : Text :=
  "[Errno ".toList ++ Text.ofNat error.number ++ "] ".toList ++ error.wording ++
    match paths with
    | [] => []
    | paths => ": ".toList ++ Text.join " -> " (paths.map Text.quoted)

/-- The wording of a fault. -/
def message : Fault → Text
  | stated _ wording => wording
  | noBody => "Calling parent class execute method"
  | unsupported name => "Unsupported application ".toList ++ name
  | noInput => "No standard input detected"
  | wrongCount usage => "Wrong number of command line arguments".toList ++ usage
  | insufficient => "Insufficient number of command line arguments"
  | badSubstitution expression => "Invalid regular expression pattern ".toList ++ expression
  | badSearch sought =>
    "Invalid regular\n                                    expression pattern ".toList ++ sought
  | noMatches word => "No matches found - ".toList ++ word
  | wrongFlags wording => wording
  | badColour name => "Invalid colour - ".toList ++ name
  | badFont name => "Invalid font option - ".toList ++ name
  | badOption name => "Invalid option: ".toList ++ name
  | badFlag flag => "Invalid flag: ".toList ++ flag
  | fileMissing name => "File does not exist - ".toList ++ name
  | namedFileMissing name => "File '".toList ++ name ++ "' does not exist".toList
  | fileExists name => "File '".toList ++ name ++ "' already exists".toList
  | copySourceMissing name => "Source '".toList ++ name ++ "' does not exist.".toList
  | copyTargetExists name =>
    "Destination file '".toList ++ name ++
      "' already exists.                     Use -f to force overwrite".toList
  | copiesFileRecursively => "Cannot copy a file recursively."
  | copiesDirectoryOntoFile => "Cannot copy a directory into a file."
  | moveSourceMissing name => "Source file '".toList ++ name ++ "' does not exist.".toList
  | moveTargetExists =>
    "Destination file already exists.                     Use -f to force overwrite"
  | directoryMissing name => "Directory does not exist - ".toList ++ name
  | badDirectory name => "Invalid Directory Name - ".toList ++ name
  | directoryExists => "Directory already exists"
  | directoryNotEmpty name => "Directory is not empty - ".toList ++ name
  | removesDirectory name => "Cannot remove a directory - ".toList ++ name
  | tooManyRedirections => "Too many redirections"
  | inputTwice => "Cannot redirect input and pipe at the same time"
  | inputMissing => "Input file not found"
  | numeral cause => numeralMessage cause
  | tooManyEnds => "too many values to unpack (expected 2)"
  | nullCharacter => "embedded null byte"
  | wrongStart => "Wrong number of command line arguments"
  | unexpectedStart argument => "Unexpected command line argument ".toList ++ argument
  | undecodable cause => decodeMessage cause
  | pattern flaw => flawMessage flaw
  | listIndex => "list index out of range"
  | textIndex => "string index out of range"
  | emptyStack => "pop from an empty deque"
  | stackIndex => "deque index out of range"
  | noGuard rule => "No predicate with index:".toList ++ (toString rule).toList
  | system error paths => systemMessage error paths
  | leave | interrupt => []
  | endOfInput => "EOF when reading a line"

/-- The kind of complaint a fault belongs to, if a command makes it itself. -/
def grievance? : Fault → Option Grievance
  | stated grievance _ => some grievance
  | noInput | wrongCount _ | insufficient | badSubstitution _ | badSearch _ | noMatches _ =>
    some .argument
  | noBody | unsupported _ => some .application
  | wrongFlags _ | badColour _ | badFont _ | badOption _ | badFlag _ => some .flag
  | fileMissing _ | namedFileMissing _ | fileExists _ | copySourceMissing _ |
    copyTargetExists _ | copiesFileRecursively | moveSourceMissing _ | moveTargetExists =>
    some .file
  | copiesDirectoryOntoFile | directoryMissing _ | badDirectory _ | directoryExists |
    directoryNotEmpty _ | removesDirectory _ => some .directory
  | tooManyRedirections | inputTwice | inputMissing => some .redirect
  | _ => none

/-- The label under which a session reports a fault. A session does not survive the
faults without one. -/
def label? (fault : Fault) : Option Text :=
  match fault with
  | numeral _ | tooManyEnds | nullCharacter | wrongStart | unexpectedStart _ |
    pattern (.count _) | pattern .scripts => some "ValueError".toList
  | undecodable _ => some "UnicodeDecodeError".toList
  | other => other.grievance?.map Grievance.label

/-- Whether a fault is a request to stop rather than a failure of a command. -/
def isStop : Fault → Bool
  | leave | interrupt => true
  | _ => false

end Fault

end MiniShell
