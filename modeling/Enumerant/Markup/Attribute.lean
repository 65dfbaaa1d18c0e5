import Enumerant.Markup.Reference

/-!
# Attributes of a tag

What stands in a tag after its name: pairs of a key, an equals sign and a quoted value, with blanks
allowed around the sign and not required between pairs. Attributes are read from the left, so the
first thing that is wrong with them is the one reported.
-/

namespace Enumerant.Markup

/-- A blank of XML. -/
def isSpace (c : Char) : Bool :=
  c = ' ' || c = '\t' || c = '\r' || c = '\n'

/-- What is wrong with attributes. -/
inductive AttributeFault where
  /-- A missing sign, a value without quotes or a second value for a key. -/
  | form
  /-- A value with a reference that stands for nothing. -/
  | value
  deriving DecidableEq, Repr

/-- A key, its value in quotes, and what follows; `none` if the front of the text is no attribute.
-/
def rawAttribute? (cs : List Char) : Option (List Char × List Char × List Char) :=
  match cs with
  | [] => none
  | c :: cs =>
    let more := cs.takeWhile fun d => !(isSpace d || d = '=')
    match (cs.drop more.length).dropWhile isSpace with
    | '=' :: cs =>
      match cs.dropWhile isSpace with
      | [] => none
      | quote :: cs =>
        if quote.toNat = 0x22 ∨ quote.toNat = 0x27 then
          let value := cs.takeWhile (· != quote)
          match cs.drop value.length with
          | _ :: rest => some (c :: more, value, rest)
          | [] => none
        else none
    | _ => none

theorem length_lt_of_rawAttribute? {cs key value rest : List Char}
    (h : rawAttribute? cs = some (key, value, rest)) : rest.length < cs.length := by
  unfold rawAttribute? at h
  split at h
  · exact nomatch h
  · rename_i c cs
    dsimp only at h
    split at h
    · rename_i after heq
      have h₁ := (List.dropWhile_suffix (l := cs.drop
        (cs.takeWhile fun d => !(isSpace d || d = '=')).length) isSpace).length_le
      rw [heq] at h₁
      split at h
      · exact nomatch h
      · rename_i quote after' heq'
        have h₂ := (List.dropWhile_suffix (l := after) isSpace).length_le
        rw [heq'] at h₂
        split at h
        · split at h
          · rename_i q rest' heq''
            have h₃ := congrArg List.length heq''
            cases h
            simp at h₁ h₂ h₃ ⊢
            omega
          · exact nomatch h
        · exact nomatch h
    · exact nomatch h

/-- The attributes of a tag whose keys so far are given. -/
def attributesAfter (keys : List (List Char)) (cs : List Char) :
    Except AttributeFault (List (String × String)) :=
  match _h : cs.dropWhile isSpace with
  | [] => .ok []
  | d :: ds =>
    match _hr : rawAttribute? (d :: ds) with
    | none => .error .form
    | some (key, raw, rest) =>
      if keys.contains key then .error .form
      else
        match unescape? raw with
        | none => .error .value
        | some value =>
          match attributesAfter (key :: keys) rest with
          | .ok more => .ok ((String.ofList key, String.ofList value) :: more)
          | .error fault => .error fault
termination_by cs.length
decreasing_by
  have h₁ := length_lt_of_rawAttribute? _hr
  have h₂ := (List.dropWhile_suffix (l := cs) isSpace).length_le
  rw [_h] at h₂
  omega

/-- The attributes in a text, in order; no two of them have one key. -/
def attributes (cs : List Char) : Except AttributeFault (List (String × String)) :=
  attributesAfter [] cs

end Enumerant.Markup
