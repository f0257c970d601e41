import Scaffold.Text
import Scaffold.Text.LetterCase

/-!
# English plurals

The plural and the singular of the last word of a name whose words stand between hyphens and
underscores. Words that have no other form stay, irregular nouns have a table, and the rest go by
their endings, of which the first that fits decides.
-/

namespace Scaffold.Naming
set_option autoImplicit false

/-- Singular and plural of irregular nouns. -/
def irregular : List (String × String) :=
  [("person", "people"), ("child", "children"), ("man", "men"), ("woman", "women"),
   ("mouse", "mice"), ("goose", "geese"), ("tooth", "teeth"), ("foot", "feet"),
   ("datum", "data"), ("medium", "media"), ("criterion", "criteria"), ("matrix", "matrices"),
   ("vertex", "vertices"), ("axis", "axes"), ("crisis", "crises"), ("analysis", "analyses"),
   ("status", "statuses"), ("address", "addresses")]

/-- Words that are the same in singular and plural. -/
def uncountable : List String :=
  ["equipment", "information", "news", "series", "species", "feedback", "metadata", "settings"]

def irregularPlural? (word : String) : Option String :=
  (irregular.find? fun p => p.1 == word).map (·.2)

def irregularSingular? (word : String) : Option String :=
  (irregular.find? fun p => p.2 == word).map (·.1)

/-- `form` with a capital if `word`, which is spelled like a plain Latin noun, has one. -/
def likeCase (word form : String) : String :=
  if word.toList.head?.any Char.isUpper then Text.capitalized form else form

/-- `word` with `ending` in place of its last `count` letters. -/
def reEnd (word : String) (count : Nat) (ending : String) : String :=
  String.ofList (word.toList.take (word.length - count)) ++ ending

/-- Whether the letter before the last one is no vowel, in a word of two letters or more. -/
def consonantBeforeLast (word small : String) : Bool :=
  1 < word.length &&
    match small.toList.reverse with
    | _ :: c :: _ => !(['a', 'e', 'i', 'o', 'u'].contains c)
    | _ => false

def pluralWord (word : String) : String :=
  let small := Text.lower word
  let ends (ending : String) : Bool := Text.endsWith ending small
  if uncountable.contains small then word
  else match irregularPlural? small with
    | some plural => likeCase word plural
    | none =>
      if (irregularSingular? small).isSome then word
      else if ends "s" && !ends "ss" then word
      else if ends "sh" || ends "ch" || ends "x" || ends "z" || ends "ss" then word ++ "es"
      else if ends "y" && consonantBeforeLast word small then reEnd word 1 "ies"
      else if ends "fe" then reEnd word 2 "ves"
      else if ends "f" && !ends "ff" then reEnd word 1 "ves"
      else if ends "o" && consonantBeforeLast word small then word ++ "es"
      else word ++ "s"

def singularWord (word : String) : String :=
  let small := Text.lower word
  let ends (ending : String) : Bool := Text.endsWith ending small
  if uncountable.contains small then word
  else match irregularSingular? small with
    | some singular => likeCase word singular
    | none =>
      if (irregularPlural? small).isSome then word
      else if ends "ies" && 3 < word.length then reEnd word 3 "y"
      else if ends "ves" then reEnd word 3 "f"
      else if ends "oes" && 3 < word.length then reEnd word 2 ""
      else if ends "ses" || ends "xes" || ends "zes" || ends "ches" ||
        ends "shes" then reEnd word 2 ""
      else if ends "s" && !ends "ss" then reEnd word 1 ""
      else word

/-- Applies `inflect` to the last word of a name. A name that ends with a separator, or that breaks
into lines before its last separator, stays as it is. -/
def onLastWord (inflect : String → String) (name : String) : String :=
  let isSeparator (c : Char) : Bool := c = '-' || c = '_'
  let reversed := name.toList.reverse
  let word := (reversed.takeWhile (!isSeparator ·)).reverse
  let front := (reversed.dropWhile (!isSeparator ·)).reverse
  if word.isEmpty || front.contains '\n' then name
  else String.ofList front ++ inflect (String.ofList word)

def plural (name : String) : String := onLastWord pluralWord name

def singular (name : String) : String := onLastWord singularWord name

end Scaffold.Naming
