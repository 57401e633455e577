import FuzzCampaign.Seed.Verdict
import FuzzCampaign.Seed.State

/-!
A seed's metadata as a file holds it, and the record that it makes. Four fields are required: a
candidate that has them all is complete and becomes a record, and any other one becomes the list of
the fields that it lacks. An absent field is told apart from a zero. Main statements: a candidate
makes no record exactly when it lacks something, and the order of records is total and transitive.
-/

namespace FuzzCampaign.Seed

/-- The fields of a metadata file, each present or not. -/
structure Metadata where
  id : Option Nat
  parent : Option Nat
  depth : Option Nat
  state : Option String
  oldCoverage : Option Nat
  newCoverage : Option Nat
  increment : Option Nat
  verdict : Option String
deriving DecidableEq, Repr

/-- A file that states nothing. -/
def Metadata.empty : Metadata := ⟨none, none, none, none, none, none, none, none⟩

/-- The metadata of one file, under the file's name. -/
structure Candidate where
  source : String
  metadata : Metadata
deriving DecidableEq, Repr

/-- The fields without which a file makes no record. -/
inductive RequiredField where
  | id
  | newCoverage
  | increment
  | depth
deriving DecidableEq, Repr

namespace RequiredField

/-- The required fields in the order in which they are listed. -/
def all : List RequiredField := [id, newCoverage, increment, depth]

/-- The name of a field in a metadata file. -/
def name : RequiredField → String
  | id => "id"
  | newCoverage => "new_cov"
  | increment => "cov_incr"
  | depth => "depth"

/-- Whether metadata has a field. -/
def isPresent (m : Metadata) : RequiredField → Bool
  | id => m.id.isSome
  | newCoverage => m.newCoverage.isSome
  | increment => m.increment.isSome
  | depth => m.depth.isSome

end RequiredField

/-- A seed that can be counted. Coverage is cumulative and in basis points; the increment is the
seed's own part of it. -/
structure Record where
  id : Nat
  newCoverage : Nat
  increment : Nat
  oldCoverage : Option Nat
  depth : Nat
  parent : Option Nat
  verdict : Verdict
  state : Option State
  source : String
deriving DecidableEq, Repr

namespace Candidate

/-- The required fields that a candidate lacks. -/
def missing (c : Candidate) : List RequiredField :=
  RequiredField.all.filter fun f => !f.isPresent c.metadata

/-- The record of a complete candidate. An absent verdict is unknown, and an empty state is none. -/
def record? (c : Candidate) : Option Record :=
  match c.metadata.id, c.metadata.newCoverage, c.metadata.increment, c.metadata.depth with
  | some id, some newCoverage, some increment, some depth =>
    some
      { id, newCoverage, increment, depth
        oldCoverage := c.metadata.oldCoverage
        parent := c.metadata.parent
        verdict := (c.metadata.verdict.map Verdict.ofText).getD .unknown
        state := (c.metadata.state.filter (· ≠ "")).map State.ofText
        source := c.source }
  | _, _, _, _ => none

/-- A candidate makes a record exactly when it lacks nothing. -/
theorem record?_eq_none_iff (c : Candidate) : c.record? = none ↔ c.missing ≠ [] := by
  obtain ⟨source, id, parent, depth, state, oldCov, newCov, increment, verdict⟩ := c
  cases id <;> cases newCov <;> cases increment <;> cases depth <;>
    simp [record?, missing, RequiredField.all, RequiredField.isPresent]

end Candidate

namespace Record

/-- Whether the seed came with the campaign and was not made from another one. -/
def isInitial (r : Record) : Bool := r.depth == 0

/-- Records are ordered by id, and those of one id by their file's name. -/
def precedes (a b : Record) : Bool :=
  a.id < b.id || (a.id == b.id && a.source ≤ b.source)

theorem precedes_total (a b : Record) : a.precedes b ∨ b.precedes a := by
  have := String.le_total a.source b.source
  simp only [precedes, Bool.or_eq_true, Bool.and_eq_true, decide_eq_true_eq, beq_iff_eq]
  rcases Nat.lt_trichotomy a.id b.id with h | h | h <;> simp_all

theorem precedes_trans (a b c : Record) (hab : a.precedes b) (hbc : b.precedes c) :
    a.precedes c := by
  simp only [precedes, Bool.or_eq_true, Bool.and_eq_true, decide_eq_true_eq, beq_iff_eq] at *
  rcases hab with hab | ⟨hab, sab⟩ <;> rcases hbc with hbc | ⟨hbc, sbc⟩
  · exact .inl (by omega)
  · exact .inl (by omega)
  · exact .inl (by omega)
  · exact .inr ⟨by omega, String.le_trans sab sbc⟩

end Record

end FuzzCampaign.Seed
