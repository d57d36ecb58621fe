/-
This file holds the pages of the manual: what a command does and how it is used.
-/

import MiniShell.Catalog.Program

namespace MiniShell

namespace Program

/-- A page with an empty line before its lines and an indented line end after them. -/
def page (lines : List String) : Text :=
  let shown := lines.map fun line => if line.isEmpty then [] else "    ".toList ++ line.toList
  '\n' :: shown.flatMap (fun line => line ++ ['\n']) ++ "    \n".toList

/-- The page of a command. -/
def manual : Program → Text
  | cat => page
    ["Concatenates the content of given files and prints it to stdout.",
     "",
     "Usage: cat [FILE]...",
     "    - FILE(s): Name(s) of the file(s) to concatenate. If no files are specified, uses stdin."]
  | cd => page
    ["Changes the current working directory.",
     "",
     "Usage: cd [PATH]",
     "    - PATH: A relative path to the target directory."]
  | color => page
    ["Changes the font color of the shell.",
     "",
     "Usage: color [COLOR]",
     "    - COLOR: Specifies the color of text displayed: (Not all supported colors are " ++
      "displayed below)",
     "        - [red]: changes the text to red.",
     "        - [purple]: changes the text to purple.",
     "        - [reset]: resets the text color."]
  | cp => page
    ["Copies a file/directory from a source to a destination.",
     "",
     "Usage: cp [OPTION] [SOURCE] [DESTINATION]",
     "    - OPTION: Specifies the behaviour of cp:",
     "        - [-f]: forces a file to be overwritten.",
     "        - [-r]: performs a recursive copy for directories (All subfiles and " ++
      "subdirectories copied).",
     "    - SOURCE: Specifies the file/directory to be copied.",
     "    - DESTINATION: Specifies the output file/directory."]
  | cut => page
    ["Cuts out sections from each line of a given file or stdin and prints the result to stdout.",
     "",
     "Usage: cut [OPTION] [FILE]",
     "    - OPTION: Specifies the bytes to extract from each line:",
     "        - [-b 1,2,3]: extracts 1st, 2nd and 3rd bytes.",
     "        - [-b 1-3,5-7]: extracts the bytes from 1st to 3rd and from 5th to 7th.",
     "        - [-b -3,5-]: extracts the bytes from the beginning of line to 3rd, and from " ++
      "5th to the end of line.",
     "    - FILE: A name of a file. If not specified, uses stdin."]
  | echo => page
    ["Repeats the arguments to stdout.",
     "",
     "echo [ARG]...",
     "    - ARG: Arguments to be printed to stdout. When no arguments are presented, stdin " ++
      "is used."]
  | exit => page
    ["Exits the shell.",
     "",
     "Usage: exit"]
  | find => page
    ["Finds all paths where the pattern is matched.",
     "",
     "Usage: find [DIR]? -name [PATTERN]",
     "    - DIR: A directory to search in. If not specified, uses the current directory.",
     "    - PATTERN: The pattern to be matched."]
  | font => page
    ["Changes the current font.",
     "",
     "Usage: font [FONT]",
     "    - FONT: Specifies the style of the text displayed to one of the following:",
     "        - bold, italic, underline, crossed, dark, reversed, reset."]
  | grep => page
    ["Matches a pattern in the files provided.",
     "",
     "Usage: grep [PATTERN] [FILE]...",
     "    - PATTERN: A regular expression to be matched.",
     "    - FILE(s): Name(s) of the file(s) to be searched. If not specified, uses stdin."]
  | head => page
    ["Returns first n lines of the input.",
     "",
     "Usage: head [-n <num_lines>]? [FILE]?",
     "    - [-n <num_lines>]: The number of lines to be returned. If not specified, returns " ++
      "the first 10 lines.",
     "    - FILE: The name of the file. If not specified, uses stdin."]
  | ls => page
    ["Lists files in current directory.",
     "",
     "Usage: ls [DIR]?",
     "    - DIR: The directory to list. If not specified, uses the current directory."]
  | mkdir => page
    ["Creates a directory.",
     "",
     "Usage: mkdir [DIR]",
     "    - DIR: The name of the directory to create."]
  | mv => page
    ["Moves a file or directory to another location.",
     "",
     "Usage: mv [OPTION] SOURCE DEST",
     "    - OPTION: Specifies the behaviour of mv:",
     "        - [-f]: forces a file to be overwritten.",
     "    - SOURCE: Specifies the file/directory to be moved.",
     "    - DEST: Specifies the output file/directory."]
  | pwd => page
    ["Outputs the current working directory.",
     "",
     "Usage: pwd"]
  | remove => page
    ["Removes a file.",
     "",
     "Usage: rm [PATH]",
     "    - PATH: The path to the file to remove."]
  | rmdir => page
    ["Removes a directory and its contents.",
     "",
     "Usage: rmdir [DIR]",
     "    - DIR: The path of the directory to remove."]
  | sed => page
    ["Replaces a string with another string in a file.",
     "",
     "Usage: sed [ARG] [FILE]",
     "    - ARG: s/pattern/replacement_string/[g]?",
     "        - [s]: Substitute.",
     "        - [pattern]: Regular expression pattern to be matched.",
     "        - [replacement_string]: String to be replaced with.",
     "        - [g]: Global flag to replace all occurrences.",
     "    - FILE: File to be modified."]
  | sort => page
    ["Sorts the input.",
     "",
     "Usage: sort [-r]? [FILE]?",
     "    - [-r]: Reverses the result of comparisons.",
     "    - FILE: The name of the file. If not specified, uses stdin."]
  | tail => page
    ["Outputs the last n lines of a file.",
     "",
     "Usage: tail [-n <num_lines>]? [FILE]?",
     "    - [-n <num_lines>]: The number of lines to be returned. If not specified, returns " ++
      "the last 10 lines.",
     "    - FILE: The name of the file. If not specified, uses stdin."]
  | touch => page
    ["Creates an empty file if it doesn't already exist.",
     "",
     "Usage: touch [FILE]",
     "    - FILE: The name of the file to create."]
  | uniq => page
    ["Removes non-unique adjacent lines from input.",
     "",
     "Usage: uniq [-i]? [FILE]?",
     "    - [-i]: Ignores case.",
     "    - FILE: The name of the file. If not specified, uses stdin."]
  | wc => page
    ["Counts the number of lines, words, and characters in a file or stdin.",
     "",
     "Usage: wc [OPTION] [FILE]?",
     "    - [OPTION]: The flags to be passed. If not specified, returns all three counts.",
     "        - [-l]: Returns the number of lines.",
     "        - [-w]: Returns the number of words.",
     "        - [-m]: Returns the number of characters.",
     "    - [FILE]: The name of the file. If not specified, uses stdin."]

/-- What the shell can do. -/
def overview : Text := page
    ["Usage 🚀:",
     "",
     "    <command> [<args>] : Run one of the available commands.",
     "    > <file> : Redirect output to a file.",
     "    >> <file> : Append output to a file.",
     "    < <file> : Use a file as input.",
     "    <command> | <command> : Pipe output from one command to another.",
     "    <command> ; <command> : Run multiple commands sequentially.",
     "",
     "The following commands are available 🤖:",
     "",
     "    pwd, cd, echo, ls, ls, cat, head, tail, grep, sort, cut, find, uniq, mkdir, touch, " ++
      "rm, rmdir, mv, cp, color, font, sed, wc, exit",
     "",
     "Use <command> --help or <command> -h for more information about a command."]

end Program

end MiniShell
