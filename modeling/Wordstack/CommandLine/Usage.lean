import Wordstack.CommandLine.Argument

/-!
# What the program says about itself

The line that shows the form of a command line, the page of help that explains it, and the
complaint about a command line that makes no sense.
-/

namespace Wordstack.Usage

/-- The name of the program. -/
def programName : String := "main.py"

/-- The form of a command line. -/
def line : String :=
  "usage: " ++ programName ++ " [-h] [-e PROGRAM] [-q] [target]\n"

/-- The page of help. -/
def help : String :=
  line ++ "
A small Forth-derived stack language interpreter.

positional arguments:
  target                'repl' or the path of a .fth/.forth file

options:
  -h, --help            show this help message and exit
  -e PROGRAM, --eval PROGRAM
                        Evaluate a program given on the command line.
  -q, --quiet           Do not echo the stack after each evaluation.

miniforth - small Forth-derived interpreter

Usage:
1. Interactive REPL:       python main.py repl
2. Run a Forth file:       python main.py program.fth
3. Evaluate inline code:   python main.py -e \"0 5 do i . loop\"
"

/-- The complaint about a command line. -/
def complaint (m : Misuse) : String :=
  line ++ programName ++ ": error: " ++ m.message ++ "\n"

end Wordstack.Usage
