/-
  ApiSyntax/QualifiedName.lean --- the flat form of qualified type names.
-/
set_option autoImplicit false

namespace ApiSyntax

/-- The name holds a separator. -/
def isQualified : List Char → Bool
  | ':' :: ':' :: _ => true
  | _ :: rest => isQualified rest
  | [] => false

/-- The name with every separator written as two underscores. -/
def flatten : List Char → List Char
  | ':' :: ':' :: rest => '_' :: '_' :: flatten rest
  | c :: rest => c :: flatten rest
  | [] => []

/-- The flat form of a name. -/
def flatName (name : String) : String := String.ofList (flatten name.toList)

theorem flatten_of_not_isQualified {name : List Char} (h : isQualified name = false) :
    flatten name = name := by
  fun_induction isQualified name with
  | case1 => cases h
  | case2 c rest hc ih =>
    have hcons : flatten (c :: rest) = c :: flatten rest := by
      rw [flatten]
      exact hc
    rw [hcons, ih h]
  | case3 => rfl

end ApiSyntax
