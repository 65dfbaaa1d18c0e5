import Enumerant.Text.Alphabetic
import Enumerant.Text.CaseMap
import Enumerant.Text.Lowercase
import Enumerant.Text.Part

/-!
# Words of a name

The two spellings of a name of several words, snake case and camel case, and the passage between
them. Both directions work on characters, so they hold for names of any alphabet; only the places
where a camel-case name is broken are decided by the letters `A`–`Z` and `a`–`z` alone.
-/

namespace Enumerant.Naming

open Text

/-! ### Camel case from snake case -/

/-- A word with a capital after every character that is no letter, and small letters elsewhere. -/
def titleAfter (letter : Bool) : List Char → List Char
  | [] => []
  | c :: cs =>
    if isAlphabetic c then (if letter then lowerChar c else upperChar c) ++ titleAfter true cs
    else c :: titleAfter false cs

/-- A word in title case: `UNORM` becomes `Unorm`, `2D` stays. -/
def title (word : List Char) : List Char :=
  titleAfter false word

/-- A word with its first character in upper case and the rest as it is. -/
def capitalized : List Char → List Char
  | [] => []
  | c :: cs => upperChar c ++ cs

/-- One word of a snake-case name as it stands in camel case: a word that already has small letters
keeps its shape. -/
def camelWord (word : List Char) : List Char :=
  if word.any isLowercase then capitalized word else title word

/-- What is known of the digits just passed: there were none, they may be the first factor of a
dimension, or they were its second factor. -/
inductive Factor where
  | none
  | first
  | second
  deriving DecidableEq, Repr

/-- Dimensions with a small `x`: in `4X4` the sign between two numbers is lowered. A number is a
factor of one dimension only, so in `2X2X2` the second sign stays. -/
def lowerDimensions (before : Factor) : List Char → List Char
  | [] => []
  | c :: cs =>
    if c.isDigit then c :: lowerDimensions (if before = .second then .second else .first) cs
    else if c = 'X' ∧ before = .first ∧ cs.head?.any Char.isDigit then
      'x' :: lowerDimensions .second cs
    else c :: lowerDimensions .none cs

/-- A snake-case name in camel case: `VK_FORMAT_4X4_UNORM` becomes `VkFormat4x4Unorm`. -/
def camel (name : List Char) : List Char :=
  lowerDimensions .none ((fields (· == '_') name).flatMap camelWord)

/-! ### Snake case from camel case -/

/-- An underscore put wherever a character of one class is followed by one of another. -/
def breakBetween (left right : Char → Bool) : List Char → List Char
  | [] => []
  | c :: cs =>
    if left c ∧ cs.head?.any right then c :: '_' :: breakBetween left right cs
    else c :: breakBetween left right cs

/-- An underscore put before every capital that small letters follow. The character in front must be
neither an underscore nor part of the word broken off just before. -/
def breakWords (inWord : Bool) : List Char → List Char
  | [] => []
  | [c] => [c]
  | c :: d :: cs =>
    if inWord ∧ c.isLower then c :: breakWords true (d :: cs)
    else if c ≠ '_' ∧ d.isUpper ∧ cs.head?.any Char.isLower then
      c :: '_' :: d :: breakWords true cs
    else c :: breakWords false (d :: cs)

/-- A camel-case name with its words divided by underscores. -/
def divided (name : List Char) : List Char :=
  breakBetween (fun c => c.isLower || c.isDigit) Char.isUpper (breakWords false name)

/-- A name in upper snake case: `VkAttachmentLoadOp` becomes `VK_ATTACHMENT_LOAD_OP`. -/
def upperSnake (name : List Char) : List Char :=
  upper (divided name)

/-- A name in lower snake case: `VkCullModeFlags` becomes `vk_cull_mode_flags`. -/
def snake (name : List Char) : List Char :=
  lower (divided name)

example : camel "VK_FORMAT_ASTC_10X10_UNORM_BLOCK".toList =
    "VkFormatAstc10x10UnormBlock".toList := by
  decide +kernel

example : upperSnake "getHTTPResponse".toList = "GET_HTTP_RESPONSE".toList := by
  decide +kernel

end Enumerant.Naming
