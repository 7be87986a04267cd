import GenreRelations.Catalog.Record

/-!
Qualification: some names say too little without the genre of the track. An unknown subgenre is
named after the genre, and trap is told apart by the genre it belongs to.
-/

namespace GenreRelations

namespace Qualification

/-- The genre under the name that tells it apart. -/
def fullGenre (genre : Text) : Text :=
  if genre = "Trap".toList then "Trap (EDM)".toList else genre

/-- What follows the word `Trap` for a genre that has a style of it. -/
def trapStyle? (genre : Text) : Option Text :=
  if genre = "Hip Hop".toList then some " (Hip Hop)".toList
  else if genre = "Trap (EDM)".toList then some " (EDM)".toList
  else none

/-- The expression with its first name qualified by a genre under its full name. -/
def byGenre (genre : Text) (subgenre : Text) : Text :=
  match subgenre with
  | '?' :: rest =>
    if genre = ['?'] then subgenre else "? (".toList ++ genre ++ ')' :: rest
  | 'T' :: 'r' :: 'a' :: 'p' :: rest =>
    if " (".toList.isPrefixOf rest then subgenre
    else
      match trapStyle? genre with
      | some style => "Trap".toList ++ style ++ rest
      | none => subgenre
  | _ => subgenre

end Qualification

/-- The expression with its first name qualified by the genre of the track, if that is known. -/
def qualify (genre : Option Text) (subgenre : Text) : Text :=
  match genre with
  | none => subgenre
  | some genre => Qualification.byGenre (Qualification.fullGenre genre) subgenre

def Record.qualified (r : Record) : Record := { r with subgenre := qualify r.genre r.subgenre }

end GenreRelations
