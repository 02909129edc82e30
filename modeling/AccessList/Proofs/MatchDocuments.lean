import AccessList.Proofs.AddressSpellings
import AccessList.Scenarios

/-!
Matches as documents. Every match request has one: its qualifier by name, its value, and its
mask if it has one, with whole numbers in decimal digits. What is read of it is the request.
-/
namespace AccessList.Proofs.MatchDocuments

open AddressSpellings Decoding Documents Matches Qualifiers Scenarios

def literalDocument : Literal → Document
  | .number n => .nat n.toNat
  | .list ns => .array (ns.map fun n => .nat n.toNat)
  | .text s => .text (some s)

def matchDocument (m : MatchRequest) : Document :=
  .object ((some "qualifier", .text (some m.qualifier.name)) ::
    (some "value", literalDocument m.value) ::
    Json.optional (some "mask") (m.mask.map literalDocument))

theorem natBelow?_nat {bound n : Nat} (h : n < bound) : natBelow? bound (.nat n) = some n := by
  have hprinted : (toString n).toList = Nat.toDigits 10 n := Nat.toList_repr
  have hdigits : (Nat.toDigits 10 n).all Char.isDigit = true :=
    List.all_eq_true.mpr fun c => Nat.isDigit_of_mem_toDigits (by omega) (by omega)
  have hvalue : (Nat.toDigits 10 n).foldl (fun n c => n * 10 + (c.toNat - '0'.toNat)) 0 = n := by
    simpa only [Nat.ofDigitChars, Nat.mul_comm 10] using
      Nat.ofDigitChars_toDigits (b := 10) (n := n) (by omega) (by omega)
  simp only [natBelow?, Json.nat, hprinted, hdigits, if_true, hvalue, if_pos h]

theorem uint64?_nat (n : UInt64) : uint64? (.nat n.toNat) = some n := by
  rw [uint64?, natBelow?_nat n.toNat_lt, Option.map_some, UInt64.ofNat_toNat]

theorem literal?_document (l : Literal) : literal? (literalDocument l) = some l := by
  cases l with
  | number n => exact congrArg (Option.map Literal.number) (uint64?_nat n)
  | list ns =>
    have hread : (ns.map fun n => Json.nat n.toNat).mapM uint64? = some ns := by
      refine mapM_of_forall₂ (List.forall₂_map_left_iff.mpr ?_)
      exact List.forall₂_same.mpr fun n _ => uint64?_nat n
    exact congrArg (Option.map Literal.list) hread
  | text s => rfl

/-- No literal is written as null, which would stand for no mask. -/
theorem nullable?_document (l : Literal) :
    nullable? literal? (literalDocument l) = some (some l) := by
  have hread : nullable? literal? (literalDocument l) =
      (literal? (literalDocument l)).map some := by
    cases l <;> rfl
  rw [hread, literal?_document, Option.map_some]

theorem ofText?_name (q : Qualifier) : Qualifier.ofText? q.name = some q := by
  cases q <;> decide

theorem matchRequest?_document (m : MatchRequest) :
    matchRequest? (matchDocument m) = some m := by
  obtain ⟨q, value, mask⟩ := m
  have hfields : record? ["qualifier", "value", "mask"] (matchDocument ⟨q, value, mask⟩) =
      some [some (.text (some q.name)), some (literalDocument value),
        mask.map literalDocument] := by
    cases mask <;> rfl
  have hqualifier : required? qualifier? (some (.text (some q.name))) = some q := ofText?_name q
  have hvalue : required? literal? (some (literalDocument value)) = some value :=
    literal?_document value
  have hmask : defaulted? (nullable? literal?) none (mask.map literalDocument) = some mask := by
    cases mask with
    | none => rfl
    | some l => exact nullable?_document l
  simp only [matchRequest?, hfields, hqualifier, hvalue, hmask, Option.bind_eq_bind,
    Option.bind_some]

end AccessList.Proofs.MatchDocuments
