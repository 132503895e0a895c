import FramedDuplex.Handles
import Mathlib.Data.List.Nodup
import Mathlib.Data.List.Perm.Subperm
import Mathlib.Data.Nat.Notation
/-!
# What the numbers name after a change

Facts on `Handles.find?` for the changes that go beyond one number, and on the
list of all things. A thing in that list is named by some number as long as no
number was given twice (`Handles.Distinct`), which inserting and erasing keep.
-/

namespace FramedDuplex

namespace Handles

variable {β γ : Type} {h : Handles β} {handle other : ℕ} {thing : β}

/-- No number stands in the list twice. -/
def Distinct (h : Handles β) : Prop :=
  (h.entries.map (·.1)).Nodup

theorem distinct_empty : (empty : Handles β).Distinct := List.nodup_nil

theorem Distinct.erase (hd : h.Distinct) (handle : ℕ) : (h.erase handle).Distinct :=
  hd.sublist (List.filter_sublist.map _)

/-- **Naming keeps the numbers distinct**, as the number is forgotten first. -/
theorem Distinct.insert (hd : h.Distinct) (handle : ℕ) (thing : β) :
    (h.insert handle thing).Distinct := by
  unfold Distinct Handles.insert
  rw [List.map_append]
  refine List.Nodup.append (hd.erase handle) (by simp) ?_
  simp [Handles.erase]

theorem Distinct.foldl_insert (hd : h.Distinct) (handles : List ℕ) (thing : β) :
    (handles.foldl (·.insert · thing) h).Distinct := by
  induction handles generalizing h with
  | nil => exact hd
  | cons handle rest ih => exact ih (hd.insert handle thing)

/-! ## The list -/

variable {e : ℕ × β}

theorem mem_entries_erase : e ∈ (h.erase handle).entries ↔ e ∈ h.entries ∧ e.1 ≠ handle := by
  simp [erase]

theorem mem_entries_insert :
    e ∈ (h.insert handle thing).entries ↔
      (e ∈ h.entries ∧ e.1 ≠ handle) ∨ e = (handle, thing) := by
  rw [insert, List.mem_append, mem_entries_erase, List.mem_singleton]

/-- What a number named before does not matter once it is named anew. -/
theorem insert_erase (h : Handles β) (handle : ℕ) (thing : β) :
    (h.erase handle).insert handle thing = h.insert handle thing := by
  simp [insert, erase, List.filter_filter]

theorem erase_insert (h : Handles β) (handle : ℕ) (thing : β) :
    (h.insert handle thing).erase handle = h.erase handle := by
  simp [insert, erase, List.filter_filter]

/-- An entry after many numbers were given to one thing is an old one, or one of
those given. -/
theorem mem_entries_of_foldl_insert {handles : List ℕ}
    (he : e ∈ (handles.foldl (·.insert · thing) h).entries) :
    e ∈ h.entries ∨ (e.1 ∈ handles ∧ e.2 = thing) := by
  induction handles generalizing h with
  | nil => exact .inl he
  | cons handle rest ih =>
    rcases ih he with hold | ⟨hin, hthing⟩
    · rcases mem_entries_insert.mp hold with ⟨hold, -⟩ | rfl
      · exact .inl hold
      · exact .inr ⟨List.mem_cons_self, rfl⟩
    · exact .inr ⟨List.mem_cons_of_mem _ hin, hthing⟩

/-- What a number names has an entry. -/
theorem mem_entries_of_find? (hfind : h.find? handle = some thing) :
    (handle, thing) ∈ h.entries := by
  obtain ⟨⟨n, _⟩, hn, rfl⟩ := Option.map_eq_some_iff.mp hfind
  obtain rfl : n = handle := by simpa using List.find?_some hn
  exact List.mem_of_find?_eq_some hn

/-! ## Looking up -/

@[simp] theorem find?_empty (handle : ℕ) : (empty : Handles β).find? handle = none := rfl

theorem find?_erase (h : Handles β) (handle other : ℕ) :
    (h.erase handle).find? other = if other = handle then none else h.find? other := by
  by_cases he : other = handle
  · subst he
    simp
  · rw [find?_erase_of_ne h he, if_neg he]

theorem find?_insert (h : Handles β) (handle other : ℕ) (thing : β) :
    (h.insert handle thing).find? other =
      if other = handle then some thing else h.find? other := by
  by_cases he : other = handle
  · subst he
    simp
  · rw [find?_insert_of_ne h thing he, if_neg he]

/-- Many numbers can name one thing. -/
theorem find?_foldl_insert (handles : List ℕ) (thing : β) (h : Handles β) (other : ℕ) :
    (handles.foldl (·.insert · thing) h).find? other =
      if other ∈ handles then some thing else h.find? other := by
  induction handles generalizing h with
  | nil => simp
  | cons handle rest ih =>
    rw [List.foldl_cons, ih, find?_insert]
    by_cases hrest : other ∈ rest
    · simp [hrest]
    · simp [hrest]

@[simp] theorem find?_map (f : β → γ) (h : Handles β) (handle : ℕ) :
    (h.map f).find? handle = (h.find? handle).map f := by
  simp only [find?, map, List.find?_map, Option.map_map]
  rfl

/-- Every thing that a number names is in the list. -/
theorem mem_things_of_find? (hfind : h.find? handle = some thing) : thing ∈ h.things := by
  exact List.mem_map_of_mem (mem_entries_of_find? hfind)

/-- **An entry is what its number names**, where the numbers are distinct. -/
theorem find?_of_mem_entries (hd : h.Distinct) (he : e ∈ h.entries) :
    h.find? e.1 = some e.2 := by
  rw [find?]
  cases hf : h.entries.find? (·.1 = e.1) with
  | none =>
    have := List.find?_eq_none.mp hf _ he
    simp at this
  | some found =>
    have hkey : found.1 = e.1 := by simpa using List.find?_some hf
    rw [List.inj_on_of_nodup_map hd (List.mem_of_find?_eq_some hf) he hkey]
    rfl

/-- So every thing in the list is named. -/
theorem mem_things_iff (hd : h.Distinct) :
    thing ∈ h.things ↔ ∃ handle, h.find? handle = some thing := by
  refine ⟨fun hthing => ?_, fun ⟨_, hfind⟩ => mem_things_of_find? hfind⟩
  obtain ⟨e, he, rfl⟩ := List.mem_map.mp hthing
  exact ⟨e.1, find?_of_mem_entries hd he⟩

/-! ## All things -/

theorem things_insert (h : Handles β) (handle : ℕ) (thing : β) :
    (h.insert handle thing).things = (h.erase handle).things ++ [thing] := by
  rw [things, insert, List.map_append]
  rfl

theorem things_erase_sublist (h : Handles β) (handle : ℕ) :
    (h.erase handle).things.Sublist h.things :=
  List.filter_sublist.map _

/-- A thing that was inserted is among the things, and no other is new. -/
theorem mem_things_of_insert {other : β} (hmem : other ∈ (h.insert handle thing).things) :
    other ∈ h.things ∨ other = thing := by
  rw [things_insert, List.mem_append, List.mem_singleton] at hmem
  exact hmem.imp_left fun hold => (things_erase_sublist h handle).subset hold

/-- **What a number names is not among the things that are left without it**: together they
are no more than there were. -/
theorem subperm_things_of_find? (hfind : h.find? handle = some thing) :
    ((h.erase handle).things ++ [thing]).Subperm h.things := by
  have hmem : (handle, thing) ∈ h.entries.filter fun e => !decide (e.1 ≠ handle) := by
    rw [List.mem_filter]
    exact ⟨mem_entries_of_find? hfind, by simp⟩
  have split := List.filter_append_perm (fun e : ℕ × β => decide (e.1 ≠ handle)) h.entries
  obtain ⟨mid, hperm, hsub⟩ := (((List.singleton_sublist.mpr hmem).append_left
    (h.entries.filter fun e => decide (e.1 ≠ handle))).subperm).trans split.subperm
  refine ⟨mid.map (·.2), ?_, hsub.map _⟩
  have moved := hperm.map (·.2)
  rwa [List.map_append] at moved

/-! ## Changing every thing -/

theorem map_erase (f : β → γ) (h : Handles β) (handle : ℕ) :
    (h.map f).erase handle = (h.erase handle).map f := by
  simp only [erase, map, List.filter_map]
  rfl

theorem map_insert (f : β → γ) (h : Handles β) (handle : ℕ) (thing : β) :
    (h.map f).insert handle (f thing) = (h.insert handle thing).map f := by
  simp only [insert, map_erase]
  simp [map]

theorem map_map {δ : Type} (g : γ → δ) (f : β → γ) (h : Handles β) :
    (h.map f).map g = h.map (g ∘ f) := by
  simp only [map, List.map_map]
  rfl

theorem contains_map (f : β → γ) (h : Handles β) (handle : ℕ) :
    (h.map f).contains handle = h.contains handle := by
  rw [contains, contains, find?_map, Option.isSome_map]

theorem things_map (f : β → γ) (h : Handles β) : (h.map f).things = h.things.map f := by
  simp only [things, map, List.map_map]
  rfl

/-! ## Other numbers -/

/-- Every thing changed, and known by another number. -/
def relabel (g : ℕ → ℕ) (f : β → γ) (h : Handles β) : Handles γ :=
  ⟨h.entries.map fun (handle, thing) => (g handle, f thing)⟩

section Relabel

variable {g : ℕ → ℕ} (hg : Function.Injective g)
include hg

theorem find?_relabel (f : β → γ) (h : Handles β) (handle : ℕ) :
    (h.relabel g f).find? (g handle) = (h.find? handle).map f := by
  simp only [find?, relabel, List.find?_map, Option.map_map, Function.comp_def, hg.eq_iff]

theorem relabel_erase (f : β → γ) (h : Handles β) (handle : ℕ) :
    (h.relabel g f).erase (g handle) = (h.erase handle).relabel g f := by
  simp only [erase, relabel, List.filter_map, Function.comp_def, ne_eq, hg.eq_iff]

theorem relabel_insert (f : β → γ) (h : Handles β) (handle : ℕ) (thing : β) :
    (h.relabel g f).insert (g handle) (f thing) = (h.insert handle thing).relabel g f := by
  simp only [insert, relabel_erase hg]
  simp [relabel]

theorem relabel_foldl_insert (f : β → γ) (handles : List ℕ) (thing : β) (h : Handles β) :
    (handles.map g).foldl (·.insert · (f thing)) (h.relabel g f) =
      (handles.foldl (·.insert · thing) h).relabel g f := by
  induction handles generalizing h with
  | nil => rfl
  | cons handle rest ih =>
    rw [List.map_cons, List.foldl_cons, List.foldl_cons, relabel_insert hg, ih]

omit hg in
theorem things_relabel (f : β → γ) (h : Handles β) : (h.relabel g f).things = h.things.map f := by
  simp only [things, relabel, List.map_map]
  rfl

end Relabel

/-! ## Some of the things -/

/-- The things whose numbers have a property. -/
def only (p : ℕ → Bool) (h : Handles β) : Handles β :=
  ⟨h.entries.filter (p ·.1)⟩

variable {p : ℕ → Bool}

theorem find?_only (h : Handles β) (handle : ℕ) :
    (h.only p).find? handle = if p handle then h.find? handle else none := by
  simp only [find?, only, List.find?_filter]
  split
  · next hp =>
    congr 2
    funext e
    by_cases he : e.1 = handle
    · simp [he, hp]
    · simp [he]
  · next hp =>
    rw [Option.map_eq_none_iff, List.find?_eq_none]
    rintro ⟨n, b⟩ - hn
    obtain ⟨hpn, rfl⟩ : p n = true ∧ n = handle := by simpa using hn
    exact hp hpn

@[simp] theorem only_true (h : Handles β) : h.only (fun _ => true) = h :=
  congrArg mk (List.filter_true _)

theorem only_map (f : β → γ) (h : Handles β) : (h.map f).only p = (h.only p).map f := by
  simp only [only, map, List.filter_map]
  rfl

theorem only_erase (h : Handles β) (handle : ℕ) :
    (h.erase handle).only p = (h.only p).erase handle := by
  simp only [only, erase, List.filter_filter, Bool.and_comm]

/-- Forgetting a thing that is not among them changes nothing. -/
theorem only_erase_of_not (hp : p handle = false) (h : Handles β) :
    (h.erase handle).only p = h.only p := by
  simp only [only, erase, List.filter_filter]
  congr 1
  refine List.filter_congr fun e _ => ?_
  by_cases he : e.1 = handle
  · simp [he, hp]
  · simp [he]

theorem only_insert (h : Handles β) (handle : ℕ) (thing : β) :
    (h.insert handle thing).only p =
      if p handle then (h.only p).insert handle thing else h.only p := by
  have appended : (h.insert handle thing).only p =
      ⟨((h.erase handle).only p).entries ++ [(handle, thing)].filter (p ·.1)⟩ := by
    simp only [insert, only, List.filter_append]
  rw [appended]
  by_cases hp : p handle
  · have kept : [(handle, thing)].filter (p ·.1) = [(handle, thing)] := by simp [hp]
    rw [if_pos hp, only_erase, kept, insert]
  · have dropped : [(handle, thing)].filter (p ·.1) = [] := by simp [hp]
    rw [if_neg hp, only_erase_of_not (by simpa using hp), dropped, List.append_nil]

/-- Of many numbers that are given a thing, those that have the property count. -/
theorem only_foldl_insert (handles : List ℕ) (thing : β) (h : Handles β) :
    (handles.foldl (·.insert · thing) h).only p =
      (handles.filter p).foldl (·.insert · thing) (h.only p) := by
  induction handles generalizing h with
  | nil => rfl
  | cons handle rest ih =>
    rw [List.foldl_cons, ih, only_insert, List.filter_cons]
    by_cases hp : p handle
    · rw [if_pos hp, if_pos hp, List.foldl_cons]
    · rw [if_neg hp, if_neg hp]

theorem ne_of_find?_eq_none (hnone : h.find? handle = none) {e : ℕ × β} (he : e ∈ h.entries) :
    e.1 ≠ handle := by
  simp only [find?, Option.map_eq_none_iff, List.find?_eq_none] at hnone
  simpa using hnone e he

/-- Where nothing has a number, there is nothing to forget. -/
theorem erase_of_find?_eq_none (hnone : h.find? handle = none) : h.erase handle = h :=
  congrArg mk (List.filter_eq_self.mpr fun _ he => by simpa using ne_of_find?_eq_none hnone he)

end Handles

end FramedDuplex
