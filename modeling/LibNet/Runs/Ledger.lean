import Mathlib

/-!
# Ledgers of lent items

A fixed stock of items, a stack of free ones, and keys that hold one item each.
The ledger says that the free items and the lent ones are together the stock,
each once; distinctness, disjointness, coverage and the count follow from that.
-/

namespace LibNet.Runs

variable {Item Key : Type}

/-- The free items and the items given to the holders are the stock, each once. -/
def Ledger (stock free : List Item) (holders : List Key) (given : Key → Item) : Prop :=
  (free ++ holders.map given).Perm stock

namespace Ledger

variable {stock free : List Item} {holders : List Key} {given : Key → Item}

theorem mem_iff (ledger : Ledger stock free holders given) (item : Item) :
    item ∈ stock ↔ item ∈ free ∨ ∃ key ∈ holders, given key = item := by
  rw [← List.Perm.mem_iff ledger, List.mem_append, List.mem_map]

/-- Nothing is both free and lent, and nothing is free or lent twice. -/
theorem nodup (ledger : Ledger stock free holders given) (distinct : stock.Nodup) :
    (free ++ holders.map given).Nodup :=
  (List.Perm.nodup_iff ledger).mpr distinct

theorem free_nodup (ledger : Ledger stock free holders given) (distinct : stock.Nodup) :
    free.Nodup :=
  (List.nodup_append.mp (ledger.nodup distinct)).1

theorem not_free (ledger : Ledger stock free holders given) (distinct : stock.Nodup)
    {key : Key} (holder : key ∈ holders) : given key ∉ free := by
  intro member
  exact (List.nodup_append.mp (ledger.nodup distinct)).2.2 _ member _
    (List.mem_map_of_mem holder) rfl

theorem injective (ledger : Ledger stock free holders given) (distinct : stock.Nodup)
    {first second : Key} (firstHolds : first ∈ holders) (secondHolds : second ∈ holders)
    (same : given first = given second) : first = second :=
  List.inj_on_of_nodup_map (List.nodup_append.mp (ledger.nodup distinct)).2.1
    firstHolds secondHolds same

theorem length_eq (ledger : Ledger stock free holders given) :
    free.length + holders.length = stock.length := by
  have lengths := List.Perm.length_eq ledger
  rwa [List.length_append, List.length_map] at lengths

/-- The top of the stack is lent to a new holder. -/
theorem lend [DecidableEq Key] {item : Item}
    (ledger : Ledger stock (item :: free) holders given) {key : Key} (absent : key ∉ holders) :
    Ledger stock free (key :: holders) (Function.update given key item) := by
  have unchanged : holders.map (Function.update given key item) = holders.map given := by
    apply List.map_congr_left
    intro other member
    have different : other ≠ key := fun same => absent (same ▸ member)
    exact Function.update_of_ne different _ _
  unfold Ledger
  rw [List.map_cons, unchanged, Function.update_self]
  exact List.perm_middle.trans ledger

/-- A holder gives its item back. -/
theorem giveBack [DecidableEq Key] (ledger : Ledger stock free holders given) {key : Key}
    (holder : key ∈ holders) :
    Ledger stock (given key :: free) (holders.erase key) given := by
  have split : (holders.map given).Perm (given key :: (holders.erase key).map given) :=
    (List.perm_cons_erase holder).map given
  have moved : (given key :: free ++ (holders.erase key).map given).Perm
      (free ++ (given key :: (holders.erase key).map given)) :=
    List.perm_middle.symm
  exact moved.trans ((List.Perm.append_left free split.symm).trans ledger)

/-- With fewer holders than items, something is free. -/
theorem free_ne_nil (ledger : Ledger stock free holders given)
    (fewer : holders.length < stock.length) : free ≠ [] := by
  intro empty
  have count := ledger.length_eq
  rw [empty, List.length_nil] at count
  omega

end Ledger

/-- Distinct keys from a range that miss one of its members are fewer than it. -/
theorem length_lt_of_missing {keys range : List Key} {missing : Key}
    (distinct : keys.Nodup) (inside : ∀ key ∈ keys, key ∈ range)
    (member : missing ∈ range) (absent : missing ∉ keys) : keys.length < range.length := by
  have larger : (missing :: keys).Nodup := List.nodup_cons.mpr ⟨absent, distinct⟩
  have covered : missing :: keys ⊆ range := by
    intro key present
    rcases List.mem_cons.mp present with rfl | old
    · exact member
    · exact inside key old
  exact (larger.subperm covered).length_le

end LibNet.Runs
