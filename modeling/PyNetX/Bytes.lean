import PyNetX.Lib.Search
/-!
# Bytes — `std::string` as bytes, its C-locale spaces, and the NETCONF 1.0 marker

`trimCopy` is `trim_copy` of the notification path; `eom` is `]]>]]>`, which the notification path and the RPC path
each declare for themselves.
-/
namespace PyNetX

abbrev Bytes := List UInt8

/-- The bytes of an ASCII text. -/
def ascii (s : String) : Bytes := s.toList.map (fun c => UInt8.ofNat c.toNat)

abbrev chLt : UInt8 := 0x3c
abbrev chGt : UInt8 := 0x3e
abbrev chSlash : UInt8 := 0x2f
abbrev chBang : UInt8 := 0x21
abbrev chQuestion : UInt8 := 0x3f
abbrev chColon : UInt8 := 0x3a
abbrev chBracket : UInt8 := 0x5d
abbrev chNewline : UInt8 := 0x0a

/-- `std::isspace` in the C locale: space, `\t`, `\n`, `\v`, `\f`, `\r`. -/
def isSpace (c : UInt8) : Bool := c == 0x20 || (0x09 ≤ c && c ≤ 0x0d)

def trimCopy (input : Bytes) : Bytes := (input.dropWhile isSpace).rdropWhile isSpace

/-- `NETCONF_NOTIFICATION_EOM`, and `NETCONF_EOM` of the RPC path: `]]>]]>`. -/
def eom : Bytes := [chBracket, chBracket, chGt, chBracket, chBracket, chGt]

/-- `NETCONF_NOTIFICATION_EOM_LEN`. -/
def eomLen : Nat := 6

@[simp] theorem eom_length : eom.length = eomLen := rfl

theorem eom_ne_nil : eom ≠ [] := by decide

theorem mem_eom {c : UInt8} : c ∈ eom ↔ c = chBracket ∨ c = chGt := by
  simp only [eom, List.mem_cons, List.not_mem_nil]
  tauto

example : eom = ascii "]]>]]>" := by decide

/-- Only spaces. -/
def Blank (s : Bytes) : Prop := ∀ c ∈ s, isSpace c = true

theorem trimCopy_eq_nil_iff (s : Bytes) : trimCopy s = [] ↔ Blank s := by
  unfold trimCopy Blank
  rw [List.rdropWhile_eq_nil_iff]
  constructor
  · intro h c hc
    by_contra hn
    have hne : s.dropWhile isSpace ≠ [] := by
      rw [Ne, List.dropWhile_eq_nil_iff]
      exact fun hall => hn (hall c hc)
    have hhead := List.head_dropWhile_not isSpace hne
    rw [h _ (List.head_mem hne)] at hhead
    cases hhead
  · intro h c hc
    exact h c ((List.dropWhile_suffix isSpace).subset hc)

instance (s : Bytes) : Decidable (Blank s) := List.decidableBAll (fun c => isSpace c = true) s

theorem trimCopy_append_cons (a b : Bytes) {c : UInt8} (hc : isSpace c = false) :
    trimCopy (a ++ c :: b) = a.dropWhile isSpace ++ c :: b.rdropWhile isSpace := by
  have hleft : (a ++ c :: b).dropWhile isSpace = a.dropWhile isSpace ++ c :: b := by
    rw [List.dropWhile_append]
    cases ha : a.dropWhile isSpace with
    | nil => simp [hc]
    | cons x xs => rfl
  unfold trimCopy List.rdropWhile
  rw [hleft]
  simp only [List.reverse_append, List.reverse_cons, List.append_assoc, List.singleton_append]
  rw [List.dropWhile_append]
  cases hb : b.reverse.dropWhile isSpace with
  | nil => simp [hc]
  | cons x xs => simp

theorem blank_append {a b : Bytes} : Blank (a ++ b) ↔ Blank a ∧ Blank b := by
  unfold Blank
  simp only [List.mem_append, or_imp, forall_and]

end PyNetX
