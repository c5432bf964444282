import MiniScheme.Text.Extending
import MiniScheme.Text.Quoted
import MiniScheme.Text.Unprintable
/-! # Quoted strings that hide nothing

Descriptions quote a text so that each of its characters can be told: what does not print, or would
merge with the character before it, stands as its code point.
-/
namespace MiniScheme.Text

/-- The two halfwidth sound marks extend the character before them but take a place of their own. -/
def isHalfwidthMark (c : Char) : Bool := c.toNat == 0xFF9E || c.toNat == 0xFF9F

/-- Whether `c` cannot be told by its looks. -/
def isHidden (c : Char) : Bool := isUnprintable c || (isExtending c && !isHalfwidthMark c)

/-- `c` as it stands in a description. -/
def revealed (c : Char) : String :=
  match escapeLetter? c with
  | some letter => "\\".push letter
  | none =>
    if c = '\x00' then "\\0"
    else if isHidden c then codePoint c
    else c.toString

def revealedText (text : String) : String :=
  text.toList.foldl (fun out c => out ++ revealed c) "\"" ++ "\""

end MiniScheme.Text
