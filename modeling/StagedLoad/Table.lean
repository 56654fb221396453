/-!
# Tables

Finite maps listed in ascending order of their keys, without repeated keys.  The
order is part of the value: two tables with the same entries are the same list.

## Main definitions

* `TableKey` — keys with a decidable linear order.
* `Table` — the maps.
* `Table.get?`, `Table.update`, `Table.insert` — looking up, changing, replacing.

## Main statements

* `Table.get?_update` — what a change does to every key.
* `Table.keys_nodup` — no key occurs twice.
* `Table.get?_ofList` — what the table of a list holds.
-/

namespace StagedLoad

/-- Keys with a strict linear order that can be decided. -/
class TableKey (κ : Type) where
  /-- The strict order. -/
  lt : κ → κ → Bool
  lt_irrefl : ∀ a, lt a a = false
  lt_trans : ∀ {a b c}, lt a b = true → lt b c = true → lt a c = true
  eq_of_not_lt : ∀ {a b}, lt a b = false → lt b a = false → a = b

instance : TableKey String where
  lt a b := decide (a < b)
  lt_irrefl a := by simp
  lt_trans := by
    intro a b c hab hbc
    simp only [decide_eq_true_eq] at *
    exact String.lt_trans hab hbc
  eq_of_not_lt := by
    intro a b hab hba
    simp only [decide_eq_false_iff_not, String.not_lt] at *
    exact String.le_antisymm hba hab

instance : TableKey Nat where
  lt a b := decide (a < b)
  lt_irrefl a := by simp
  lt_trans := by
    intro a b c hab hbc
    simp only [decide_eq_true_eq] at *
    omega
  eq_of_not_lt := by
    intro a b hab hba
    simp only [decide_eq_false_iff_not] at *
    omega

/-- The order of what a one-to-one function reads off its arguments. -/
@[reducible] def TableKey.comap {ι κ : Type} [TableKey κ] (f : ι → κ)
    (injective : ∀ {a b}, f a = f b → a = b) : TableKey ι where
  lt a b := TableKey.lt (f a) (f b)
  lt_irrefl a := TableKey.lt_irrefl (f a)
  lt_trans hab hbc := TableKey.lt_trans hab hbc
  eq_of_not_lt hab hba := injective (TableKey.eq_of_not_lt hab hba)

theorem TableKey.ne_of_lt {κ : Type} [TableKey κ] {a b : κ} (h : TableKey.lt a b = true) :
    a ≠ b := by
  rintro rfl
  rw [TableKey.lt_irrefl] at h
  exact Bool.noConfusion h

/-- Entries in ascending order of their keys. -/
structure Table (κ α : Type) [TableKey κ] where
  /-- The keys and their values. -/
  entries : List (κ × α)
  /-- The keys ascend strictly. -/
  sorted : entries.Pairwise fun a b => TableKey.lt a.1 b.1 = true

namespace Table

variable {κ α β : Type} [TableKey κ]

/-- The table without entries. -/
def empty : Table κ α := ⟨[], List.Pairwise.nil⟩

instance : Inhabited (Table κ α) := ⟨empty⟩

/-- The keys in ascending order. -/
def keys (t : Table κ α) : List κ := t.entries.map Prod.fst

/-- The values in ascending order of their keys. -/
def values (t : Table κ α) : List α := t.entries.map Prod.snd

/-- The value at a key in a list of entries. -/
def lookup [DecidableEq κ] (k : κ) : List (κ × α) → Option α
  | [] => none
  | (k', v) :: rest => if k' = k then some v else lookup k rest

/-- The value at a key. -/
def get? [DecidableEq κ] (t : Table κ α) (k : κ) : Option α := lookup k t.entries

/-- Whether there is a value at a key. -/
def contains [DecidableEq κ] (t : Table κ α) (k : κ) : Bool := (t.get? k).isSome

/-- Changes the value at a key in an ascending list of entries, or puts one there. -/
def change (k : κ) (f : Option α → α) : List (κ × α) → List (κ × α)
  | [] => [(k, f none)]
  | (k', v) :: rest =>
    if TableKey.lt k k' then (k, f none) :: (k', v) :: rest
    else if TableKey.lt k' k then (k', v) :: change k f rest
    else (k', f (some v)) :: rest

theorem forall_mem_change {k : κ} {f : Option α → α} {p : κ → Prop} (hk : p k) :
    ∀ l : List (κ × α), (∀ e ∈ l, p e.1) → ∀ e ∈ change k f l, p e.1
  | [], _, e, he => by
    rw [change, List.mem_singleton] at he
    exact he ▸ hk
  | (k', v) :: rest, hl, e, he => by
    rw [List.forall_mem_cons] at hl
    unfold change at he
    split at he
    · rcases List.mem_cons.mp he with rfl | he
      · exact hk
      · rcases List.mem_cons.mp he with rfl | he
        · exact hl.1
        · exact hl.2 e he
    · split at he
      · rcases List.mem_cons.mp he with rfl | he
        · exact hl.1
        · exact forall_mem_change hk rest hl.2 e he
      · rcases List.mem_cons.mp he with rfl | he
        · exact hl.1
        · exact hl.2 e he

theorem change_sorted (k : κ) (f : Option α → α) {l : List (κ × α)}
    (h : l.Pairwise fun a b => TableKey.lt a.1 b.1 = true) :
    (change k f l).Pairwise fun a b => TableKey.lt a.1 b.1 = true := by
  induction l with
  | nil => exact List.pairwise_singleton _ _
  | cons e rest ih =>
    obtain ⟨k', v⟩ := e
    rw [List.pairwise_cons] at h
    unfold change
    split
    · rename_i hlt
      refine List.pairwise_cons.mpr ⟨fun e he => ?_, List.pairwise_cons.mpr h⟩
      rcases List.mem_cons.mp he with rfl | he
      · exact hlt
      · exact TableKey.lt_trans hlt (h.1 e he)
    · split
      · rename_i hlt
        exact List.pairwise_cons.mpr
          ⟨forall_mem_change (p := fun x => TableKey.lt k' x = true) hlt rest h.1, ih h.2⟩
      · exact List.pairwise_cons.mpr h

/-- Changes the value at a key, or puts one there. -/
def update (t : Table κ α) (k : κ) (f : Option α → α) : Table κ α :=
  ⟨change k f t.entries, change_sorted k f t.sorted⟩

/-- Puts a value at a key, in place of the one that may be there. -/
def insert (t : Table κ α) (k : κ) (v : α) : Table κ α := t.update k fun _ => v

/-- Puts values at keys one after the other. -/
def insertAll (t : Table κ α) (l : List (κ × α)) : Table κ α :=
  l.foldl (fun t e => t.insert e.1 e.2) t

/-- The table of a list of entries, of which the last one at each key counts. -/
def ofList (l : List (κ × α)) : Table κ α := empty.insertAll l

/-- Changes every value. -/
def map (f : α → β) (t : Table κ α) : Table κ β :=
  ⟨t.entries.map fun e => (e.1, f e.2), by
    rw [List.pairwise_map]
    exact t.sorted⟩

variable [DecidableEq κ]

/-! ### Looking up in a list -/

section Lists

omit [TableKey κ]

@[simp] theorem lookup_nil (k : κ) : lookup k ([] : List (κ × α)) = none := rfl

theorem lookup_cons (k : κ) (e : κ × α) (l : List (κ × α)) :
    lookup k (e :: l) = if e.1 = k then some e.2 else lookup k l := rfl

theorem lookup_append (k : κ) (l₁ l₂ : List (κ × α)) :
    lookup k (l₁ ++ l₂) = (lookup k l₁).or (lookup k l₂) := by
  induction l₁ with
  | nil => rfl
  | cons e l₁ ih =>
    rw [List.cons_append, lookup_cons, lookup_cons, ih]
    split <;> rfl

/-- Where keys determine values, looking up a key asks only whether it is there. -/
theorem lookup_map (f : β → κ) (g : β → α) {b : β} {l : List β}
    (h : ∀ c ∈ l, f c = f b → g c = g b) :
    lookup (f b) (l.map fun c => (f c, g c)) = if f b ∈ l.map f then some (g b) else none := by
  induction l with
  | nil => rfl
  | cons c l ih =>
    rw [List.forall_mem_cons] at h
    rw [List.map_cons, lookup_cons, ih h.2]
    by_cases hc : f c = f b
    · rw [if_pos hc, if_pos (by simp [hc]), h.1 hc]
    · rw [if_neg hc]
      simp [Ne.symm hc]

theorem lookup_eq_none_iff {k : κ} {l : List (κ × α)} :
    lookup k l = none ↔ k ∉ l.map Prod.fst := by
  induction l with
  | nil => simp
  | cons e l ih =>
    rw [lookup_cons]
    by_cases he : e.1 = k
    · simp [he]
    · rw [if_neg he, ih]
      simp [Ne.symm he]

theorem mem_of_lookup {k : κ} {v : α} {l : List (κ × α)} (h : lookup k l = some v) :
    (k, v) ∈ l := by
  induction l with
  | nil => simp at h
  | cons e l ih =>
    rw [lookup_cons] at h
    split at h
    · rename_i he
      cases h
      subst he
      exact List.mem_cons_self
    · exact List.mem_cons_of_mem _ (ih h)

/-- From behind one finds the last value at a key. -/
theorem lookup_reverse_eq_some_iff {k : κ} {v : α} {l : List (κ × α)} :
    lookup k l.reverse = some v ↔
      ∃ before after, l = before ++ (k, v) :: after ∧ ∀ e ∈ after, e.1 ≠ k := by
  constructor
  · intro h
    obtain ⟨behind, ahead, hl, hbehind⟩ : ∃ behind ahead, l.reverse = behind ++ (k, v) :: ahead ∧
        ∀ e ∈ behind, e.1 ≠ k := by
      generalize l.reverse = m at h
      induction m with
      | nil => cases h
      | cons e m ih =>
        rw [lookup_cons] at h
        split at h
        case isTrue he =>
          obtain rfl : e = (k, v) := Prod.ext he (Option.some.inj h)
          exact ⟨[], m, rfl, by simp⟩
        case isFalse he =>
          obtain ⟨behind, ahead, rfl, hbehind⟩ := ih h
          exact ⟨e :: behind, ahead, rfl, List.forall_mem_cons.mpr ⟨he, hbehind⟩⟩
    refine ⟨ahead.reverse, behind.reverse, ?_, by simpa using hbehind⟩
    rw [List.reverse_eq_iff.mp hl]
    simp
  · rintro ⟨before, after, rfl, hafter⟩
    have hnone : lookup k after.reverse = none := by
      rw [lookup_eq_none_iff]
      simpa using fun x hx => hafter (k, x) hx rfl
    rw [List.reverse_append, List.reverse_cons, lookup_append, lookup_append, hnone]
    simp [lookup_cons]

end Lists

/-! ### Looking up after a change -/

theorem lookup_eq_none_of_lt {k : κ} {l : List (κ × α)}
    (h : ∀ e ∈ l, TableKey.lt k e.1 = true) : lookup k l = none := by
  rw [lookup_eq_none_iff, List.mem_map]
  rintro ⟨e, he, rfl⟩
  exact TableKey.ne_of_lt (h e he) rfl

theorem lookup_change (k : κ) (f : Option α → α) (k' : κ) {l : List (κ × α)}
    (h : l.Pairwise fun a b => TableKey.lt a.1 b.1 = true) :
    lookup k' (change k f l) = if k' = k then some (f (lookup k l)) else lookup k' l := by
  induction l with
  | nil => simp [change, lookup, eq_comm]
  | cons e rest ih =>
    obtain ⟨a, v⟩ := e
    rw [List.pairwise_cons] at h
    unfold change
    split
    case isTrue hbefore =>
      -- the key comes before all others
      have hnone : lookup k ((a, v) :: rest) = none := lookup_eq_none_of_lt
        (List.forall_mem_cons.mpr ⟨hbefore, fun e he => TableKey.lt_trans hbefore (h.1 e he)⟩)
      rw [hnone, lookup_cons]
      simp only [eq_comm]
    case isFalse hbefore =>
      split
      case isTrue hafter =>
        have hak := TableKey.ne_of_lt hafter
        simp only [lookup_cons, ih h.2, if_neg hak]
        by_cases ha : a = k'
        · subst ha
          rw [if_pos rfl, if_pos rfl, if_neg hak]
        · rw [if_neg ha, if_neg ha]
      case isFalse hafter =>
        obtain rfl : k = a := TableKey.eq_of_not_lt (by simpa using hbefore) (by simpa using hafter)
        simp only [lookup_cons, if_true]
        by_cases hk : k = k'
        · subst hk
          rw [if_pos rfl, if_pos rfl]
        · rw [if_neg hk, if_neg (Ne.symm hk), if_neg hk]

@[simp] theorem get?_empty (k : κ) : (empty : Table κ α).get? k = none := rfl

theorem get?_update (t : Table κ α) (k : κ) (f : Option α → α) (k' : κ) :
    (t.update k f).get? k' = if k' = k then some (f (t.get? k)) else t.get? k' :=
  lookup_change k f k' t.sorted

theorem get?_insert (t : Table κ α) (k : κ) (v : α) (k' : κ) :
    (t.insert k v).get? k' = if k' = k then some v else t.get? k' :=
  t.get?_update k (fun _ => v) k'

omit [DecidableEq κ] in
theorem keys_nodup (t : Table κ α) : t.keys.Nodup := by
  unfold keys
  rw [List.nodup_iff_pairwise_ne, List.pairwise_map]
  exact t.sorted.imp TableKey.ne_of_lt

/-! ### Tables of lists -/

/-- Of the values put at a key the last one stays. -/
theorem get?_insertAll (t : Table κ α) (l : List (κ × α)) (k : κ) :
    (t.insertAll l).get? k = (lookup k l.reverse).or (t.get? k) := by
  unfold insertAll
  induction l generalizing t with
  | nil => rfl
  | cons e l ih =>
    rw [List.foldl_cons, ih, List.reverse_cons, lookup_append, get?_insert, lookup_cons]
    cases lookup k l.reverse with
    | some v => rfl
    | none =>
      by_cases he : k = e.1
      · simp [he]
      · simp [he, Ne.symm he]

theorem get?_ofList (l : List (κ × α)) (k : κ) : (ofList l).get? k = lookup k l.reverse := by
  rw [ofList, get?_insertAll, get?_empty, Option.or_none]

/-- What stands in a table of a list is what stands last in the list. -/
theorem get?_ofList_eq_some_iff {l : List (κ × α)} {k : κ} {v : α} :
    (ofList l).get? k = some v ↔
      ∃ before after, l = before ++ (k, v) :: after ∧ ∀ e ∈ after, e.1 ≠ k := by
  rw [get?_ofList, lookup_reverse_eq_some_iff]

/-- A table of a list has the keys of the list. -/
theorem get?_ofList_eq_none_iff {l : List (κ × α)} {k : κ} :
    (ofList l).get? k = none ↔ k ∉ l.map Prod.fst := by
  rw [get?_ofList, lookup_eq_none_iff, List.map_reverse, List.mem_reverse]

/-- What stands in a table at a key stands in its entries. -/
theorem mem_entries_iff {t : Table κ α} {k : κ} {v : α} :
    (k, v) ∈ t.entries ↔ t.get? k = some v := by
  obtain ⟨l, h⟩ := t
  refine ⟨fun hmem => ?_, mem_of_lookup⟩
  simp only [get?] at *
  induction l with
  | nil => cases hmem
  | cons e l ih =>
    rw [List.pairwise_cons] at h
    rw [lookup_cons]
    rcases List.mem_cons.mp hmem with rfl | hmem
    · rw [if_pos rfl]
    · rw [if_neg (TableKey.ne_of_lt (h.1 _ hmem))]
      exact ih h.2 hmem

theorem mem_keys_iff {t : Table κ α} {k : κ} : k ∈ t.keys ↔ ∃ v, t.get? k = some v := by
  simp only [keys, List.mem_map, ← mem_entries_iff]
  constructor
  · rintro ⟨⟨k, v⟩, hmem, rfl⟩
    exact ⟨v, hmem⟩
  · rintro ⟨v, hmem⟩
    exact ⟨(k, v), hmem, rfl⟩

theorem mem_values_iff {t : Table κ α} {v : α} : v ∈ t.values ↔ ∃ k, t.get? k = some v := by
  simp only [values, List.mem_map, ← mem_entries_iff]
  constructor
  · rintro ⟨⟨k, v⟩, hmem, rfl⟩
    exact ⟨k, hmem⟩
  · rintro ⟨k, hmem⟩
    exact ⟨(k, v), hmem, rfl⟩

/-- The keys of a table of a list are those of the list. -/
theorem mem_keys_ofList {l : List (κ × α)} {k : κ} :
    k ∈ (ofList l).keys ↔ k ∈ l.map Prod.fst := by
  rw [mem_keys_iff, ← Option.isSome_iff_exists, Option.isSome_iff_ne_none, ne_eq,
    get?_ofList_eq_none_iff, Decidable.not_not]

end Table

end StagedLoad
