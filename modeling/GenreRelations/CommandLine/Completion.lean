import GenreRelations.CommandLine.Read

/-!
Scripts that teach a shell the words for the commands. They are this library's own and complete the
first word only. A tool that generates such scripts from the declaration of its options writes longer
ones; no theorem depends on their text.
-/

namespace GenreRelations

namespace CommandLine

/-- The words that may stand first on the command line. -/
def firstWords : List Text :=
  rootActions.filterMap (fun a => a.words.head?) ++ ["config".toList, "help".toList]

end CommandLine

/-- The script that completes the first word behind the name of the program. -/
def Shell.completion (shell : Shell) : Text :=
  let words := Text.unwords CommandLine.firstWords
  let program := CommandLine.programName
  match shell with
  | bash => "complete -W '".toList ++ words ++ "' ".toList ++ program
  | elvish =>
    "set edit:completion:arg-completer[".toList ++ program ++ "] = \x7b|@words| put ".toList ++
      words ++ " \x7d".toList
  | fish => "complete -c ".toList ++ program ++ " -f -a '".toList ++ words ++ ['\'']
  | powershell =>
    "Register-ArgumentCompleter -Native -CommandName ".toList ++ program ++
      " -ScriptBlock \x7b -split '".toList ++ words ++ "' \x7d".toList
  | zsh => "compctl -k '(".toList ++ words ++ ")' ".toList ++ program

end GenreRelations
