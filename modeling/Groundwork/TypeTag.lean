/-!
Type tags.

A tag such as `aws:subnet` says what sort of resource an identity names.  Tags are compared and
ordered by their text alone; nothing about the text is checked.

* `TypeTag` — the tag;
* `TypeTag.ofParts` — the tag of a provider and a kind.
-/

set_option autoImplicit false

namespace Groundwork

/-- The sort of a resource, written `provider:kind`. -/
structure TypeTag where
  /-- The written form. -/
  text : String
deriving DecidableEq, Inhabited

namespace TypeTag

/-- The tag of a provider and a kind. -/
def ofParts (provider kind : String) : TypeTag := ⟨provider ++ ":" ++ kind⟩

instance : Ord TypeTag := ⟨compareOn text⟩

instance : Std.TransOrd TypeTag := inferInstanceAs (Std.TransCmp (compareOn text))

theorem ext_text {a b : TypeTag} (h : a.text = b.text) : a = b := by
  cases a; cases b; simp_all

instance : Std.LawfulEqOrd TypeTag where
  eq_of_compare {a b} h :=
    have h : compare a.text b.text = .eq := h
    ext_text (Std.LawfulEqOrd.eq_of_compare h)

end TypeTag

end Groundwork
