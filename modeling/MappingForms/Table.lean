
/-!
Contract: finite tables that are always listed in key order.

Owns: the table type, whose entries have strictly increasing keys, and its
look-up, insertion and listing.

Inserting under a key that is already present replaces the value. Because the
order is part of the type, every traversal of a table is deterministic and two
tables with the same look-ups have the same entries.
-/

set_option autoImplicit false

namespace MappingForms

/-- A finite map from keys to values, listed by increasing key. -/
structure Table (κ α : Type) [Ord κ] where
  entries : List (κ × α)
  ordered : entries.Pairwise (fun earlier later => compare earlier.1 later.1 = .lt)

namespace Table

variable {κ α : Type} [Ord κ]

def empty : Table κ α := ⟨[], List.Pairwise.nil⟩

instance : EmptyCollection (Table κ α) := ⟨empty⟩

instance : Inhabited (Table κ α) := ⟨empty⟩

def keys (table : Table κ α) : List κ := table.entries.map (·.1)

def values (table : Table κ α) : List α := table.entries.map (·.2)

def size (table : Table κ α) : Nat := table.entries.length

def isEmpty (table : Table κ α) : Bool := table.entries.isEmpty

def get? (table : Table κ α) (key : κ) : Option α :=
  (table.entries.find? fun entry => compare key entry.1 == .eq).map (·.2)

def contains (table : Table κ α) (key : κ) : Bool := (table.get? key).isSome

def mapValues {β : Type} (table : Table κ α) (change : α → β) : Table κ β :=
  ⟨table.entries.map fun entry => (entry.1, change entry.2),
    List.pairwise_map.2 table.ordered⟩

def place (key : κ) (value : α) : List (κ × α) → List (κ × α)
  | [] => [(key, value)]
  | entry :: rest =>
    match compare key entry.1 with
    | .lt => (key, value) :: entry :: rest
    | .eq => (key, value) :: rest
    | .gt => entry :: place key value rest

/-- Placing an entry adds no other entry. -/
theorem mem_place {key : κ} {value : α} {entries : List (κ × α)} {entry : κ × α}
    (member : entry ∈ place key value entries) :
    entry = (key, value) ∨ entry ∈ entries := by
  induction entries with
  | nil => simpa [place] using member
  | cons first rest inductionHypothesis =>
    unfold place at member
    split at member
    · simpa using member
    · rcases List.mem_cons.1 member with same | later
      · exact .inl same
      · exact .inr (List.mem_cons_of_mem _ later)
    · rcases List.mem_cons.1 member with same | later
      · exact .inr (same ▸ List.mem_cons_self)
      · exact (inductionHypothesis later).imp_right (List.mem_cons_of_mem _)

private theorem pairwise_place [Std.TransOrd κ] [Std.LawfulEqOrd κ] {key : κ} {value : α}
    {entries : List (κ × α)}
    (ordered : entries.Pairwise fun earlier later => compare earlier.1 later.1 = .lt) :
    (place key value entries).Pairwise fun earlier later =>
      compare earlier.1 later.1 = .lt := by
  induction entries with
  | nil => simp [place]
  | cons first rest inductionHypothesis =>
    have headBelow := (List.pairwise_cons.1 ordered).1
    have tailOrdered := (List.pairwise_cons.1 ordered).2
    unfold place
    split
    · rename_i before
      refine List.pairwise_cons.2 ⟨fun later member => ?_, ordered⟩
      rcases List.mem_cons.1 member with same | inRest
      · exact same ▸ before
      · exact Std.TransCmp.lt_trans before (headBelow later inRest)
    · rename_i same
      refine List.pairwise_cons.2 ⟨fun later member => ?_, tailOrdered⟩
      have keyEq : key = first.1 := Std.LawfulEqCmp.compare_eq_iff_eq.1 same
      exact keyEq ▸ headBelow later member
    · rename_i after
      refine List.pairwise_cons.2 ⟨fun later member => ?_, inductionHypothesis tailOrdered⟩
      rcases mem_place member with same | inRest
      · exact same ▸ Std.OrientedCmp.gt_iff_lt.1 after
      · exact headBelow later inRest

/-- Stores a value under a key, in place of any value stored there before. -/
def insert [Std.TransOrd κ] [Std.LawfulEqOrd κ] (table : Table κ α) (key : κ) (value : α) :
    Table κ α :=
  ⟨place key value table.entries, pairwise_place table.ordered⟩

def insertIfNew [Std.TransOrd κ] [Std.LawfulEqOrd κ] (table : Table κ α) (key : κ) (value : α) :
    Table κ α :=
  if table.contains key then table else table.insert key value

/-- Changes the value under a key, starting from a default when the key is absent. -/
def update [Std.TransOrd κ] [Std.LawfulEqOrd κ] (table : Table κ α) (key : κ) (start : α)
    (change : α → α) : Table κ α :=
  table.insert key (change ((table.get? key).getD start))

end Table

end MappingForms
