import Enumerant.Rendering.Block

/-!
# Scoped enumerations

An `enum class` with prefixed members in camel case. Flags get an integer type for their
combinations and operators that yield it; on request, functions give the name of a value and of a
combination.
-/

namespace Enumerant.Rendering.EnumClass

/-- The declaration of the type. -/
def declaration (e : Enumeration) (r : Request) (settings : Settings) : List String :=
  (match e.kind with
    | .bitmask =>
      ["using " ++ e.flagsTypeName ++ " = " ++ storage e r ++ ";",
        "enum class " ++ e.typeName ++ " : " ++ e.flagsTypeName ++ " \x7b"]
    | .plain => ["enum class " ++ e.typeName ++ " : " ++ storage e r ++ " \x7b"])
    ++ e.members.map (fun m =>
      memberLine settings.indent (settings.memberPrefix ++ m.friendlyName)
        (match m.target with
          | some target => settings.memberPrefix ++ target.friendlyName
          | none => m.literal)
        m.comment)
    ++ ["\x7d;"]

/-- One operator between flags; `operand` stands for the left operand as an integer. -/
def operator (e : Enumeration) (settings : Settings) (op leftType operand : String) :
    List String :=
  let flags := e.flagsTypeName
  ["constexpr " ++ flags ++ " operator" ++ op ++ "(" ++ leftType ++ " const& lhs, " ++ e.typeName
      ++ " const& rhs) noexcept \x7b",
    settings.indent ++ "return static_cast<const " ++ flags ++ ">(" ++ operand ++ " " ++ op
      ++ " static_cast<" ++ flags ++ ">(rhs));",
    "\x7d"]

/-- The operators that combine and test flags. -/
def operators (e : Enumeration) (settings : Settings) : List String :=
  let cast := "static_cast<" ++ e.flagsTypeName ++ ">(lhs)"
  operator e settings "|" e.typeName cast
    ++ [""] ++ operator e settings "|" e.flagsTypeName "lhs"
    ++ [""] ++ operator e settings "&" e.typeName cast

/-- The function that gives the name of a value. -/
def valueNames (e : Enumeration) (r : Request) (settings : Settings) : List String :=
  nameFunction settings e.typeName ("static_cast<" ++ storage e r ++ ">(tp)")
    (e.distinct.map fun m => (alignRight 10 m.literal, m.friendlyName))

/-- The function that gives the names of the bits in a combination. -/
def flagNames (e : Enumeration) (settings : Settings) : List String :=
  let i := settings.indent
  let name := String.ofList (Naming.snake e.flagsTypeName.toList)
  ["static std::string to_string_" ++ name ++ "(const " ++ e.flagsTypeName ++ "& tp) \x7b"]
    ++ indented i
      (["uint64_t flags = tp;", "std::string result;", "int bit_pos = 0;", "while (flags) \x7b"]
        ++ indented i
          (["if (flags & 1) \x7b"]
            ++ indented i
              ["if (false == result.empty()) \x7b",
                i ++ "result.append(\" | \");",
                "\x7d",
                "result.append(to_str(" ++ e.typeName ++ "(1ULL << bit_pos)));"]
            ++ ["\x7d", "flags >>= 1;", "bit_pos++;"])
        ++ ["\x7d", "return result;"])
    ++ ["\x7d"]

/-- The whole block. -/
def lines (e : Enumeration) (r : Request) (settings : Settings) : List String :=
  declaration e r settings
    ++ (if e.kind = .bitmask then "" :: operators e settings else [])
    ++ (if r.table then "" :: valueNames e r settings else [])
    ++ (if r.table ∧ e.kind = .bitmask then "" :: flagNames e settings else [])

end Enumerant.Rendering.EnumClass
