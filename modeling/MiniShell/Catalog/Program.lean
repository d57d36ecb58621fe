/-
This file lists the built-in commands with their names and what they do.
-/

import MiniShell.Command.Copying
import MiniShell.Command.Counting
import MiniShell.Command.Cutting
import MiniShell.Command.Directories
import MiniShell.Command.Display
import MiniShell.Command.Finding
import MiniShell.Command.Matching
import MiniShell.Command.Ordering
import MiniShell.Command.Reading

namespace MiniShell

/-- The built-in commands. -/
inductive Program
  | cat | cd | color | cp | cut | echo | exit | find | font | grep | head | ls
  | mkdir | mv | pwd | remove | rmdir | sed | sort | tail | touch | uniq | wc
  deriving DecidableEq, Repr

namespace Program

/-- The commands that are always there, in the order of their names. -/
def all : List Program :=
  [cat, cd, color, cp, cut, echo, exit, find, font, grep, head, ls,
   mkdir, mv, pwd, remove, rmdir, sed, sort, tail, touch, uniq, wc]

/-- The name of a command. -/
def name : Program → Text
  | cat => "cat"
  | cd => "cd"
  | color => "color"
  | cp => "cp"
  | cut => "cut"
  | echo => "echo"
  | exit => "exit"
  | find => "find"
  | font => "font"
  | grep => "grep"
  | head => "head"
  | ls => "ls"
  | mkdir => "mkdir"
  | mv => "mv"
  | pwd => "pwd"
  | remove => "remove"
  | rmdir => "rmdir"
  | sed => "sed"
  | sort => "sort"
  | tail => "tail"
  | touch => "touch"
  | uniq => "uniq"
  | wc => "wc"

/-- What a command does with its arguments. -/
def run : Program → List Text → Action Unit
  | cat => Command.cat
  | cd => Command.cd
  | color => Command.color
  | cp => Command.cp
  | cut => Command.cut
  | echo => Command.echo
  | exit => Command.exit
  | find => Command.find
  | font => Command.font
  | grep => Command.grep
  | head => Command.head
  | ls => Command.ls
  | mkdir => Command.mkdir
  | mv => Command.mv
  | pwd => Command.pwd
  | remove => Command.remove
  | rmdir => Command.rmdir
  | sed => Command.sed
  | sort => Command.sort
  | tail => Command.tail
  | touch => Command.touch
  | uniq => Command.uniq
  | wc => Command.wc

end Program

end MiniShell
