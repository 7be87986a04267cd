import GenreRelations.CommandLine.Command
import GenreRelations.Text.Lines

/-!
What is said to those who ask for help, and to those whose command line names no command. The
wording of the page and of the messages is this library's own. A tool that generates such texts from
the declaration of its options words them otherwise; no theorem depends on the words.
-/

namespace GenreRelations

namespace CommandLine

def version : Text := "0.3.0".toList

def helpPage : Text := Text.unlines [
  "Parse and flatten genre relation expressions".toList,
  [],
  "Usage: genreguide [-d]... [--no-color] COMMAND".toList,
  [],
  "  parse [-f FORMAT] EXPRESSION  print the structure of an expression".toList,
  "  flatten EXPRESSION            print its names and operators, one a line".toList,
  "  check FILE                    report the records that are rejected".toList,
  "  catalog FILE                  print the entry of every record".toList,
  "  aliases FILE                  print the names in a note".toList,
  "  config show                   print the settings".toList,
  "  config path                   print where settings are looked for".toList,
  "  completion SHELL              print completions for a shell".toList,
  "  help                          print this page".toList,
  [],
  "Formats: tree, json, flat, text. Shells: bash, elvish, fish, powershell, zsh.".toList]

end CommandLine

def Usage.message : Usage → Text
  | help => []
  | version _ => []
  | nothing => "no command is given".toList
  | missingCommand => "no command is given".toList
  | unknownCommand => "there is no such command".toList
  | missingOperand => "the command needs an operand".toList
  | unknownArgument => "the command takes no such argument".toList
  | invalidValue => "a value is missing or not allowed".toList
  | repeated => "an option is given twice".toList
  | unexpectedValue => "a flag takes no value".toList

end GenreRelations
