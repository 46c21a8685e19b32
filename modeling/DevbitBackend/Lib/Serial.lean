import Mathlib.Data.List.Nodup
import Mathlib.Order.Basic
import Mathlib.Data.Int.Order.Basic

/-!
# Serial

Tables with a serial key and an owner column. Keys are drawn from a sequence,
whose last value `last` is part of the table, and are never drawn twice, also
when rows are deleted in between. So who owns a key is settled once and for all:
`Owned` is a fact about one moment that every later moment keeps
(`Owned.later`), which is what a check made before a write rests on.
-/

namespace Serial

variable {α ω : Type}

/-- The key and the owner column of a table. -/
structure Columns (α ω : Type) where
  key : α → Int
  owner : α → ω

variable {c : Columns α ω} {rows rows' rows'' : List α} {last last' last'' : Int}

/-! ### Unique keys -/

section Keys

variable {β : Type} {key : α → β}

/-- A key that no row has can be added. -/
theorem nodup_keys_append {r : α} (h : (rows.map key).Nodup) (hr : ∀ r' ∈ rows, key r' ≠ key r) :
    ((rows ++ [r]).map key).Nodup := by
  rw [List.map_append, List.map_singleton, List.nodup_append]
  refine ⟨h, List.nodup_singleton _, ?_⟩
  intro k hk k' hk'
  obtain ⟨r', hr', rfl⟩ := List.mem_map.mp hk
  rw [List.mem_singleton.mp hk']
  exact hr r' hr'

/-- The rows with the key of a row are that row alone. -/
theorem filter_key [DecidableEq β] {r : α} (h : (rows.map key).Nodup) (hr : r ∈ rows) :
    rows.filter (fun r' => key r' == key r) = [r] := by
  induction rows with
  | nil => cases hr
  | cons r' rows ih =>
      obtain ⟨hfresh, h⟩ := List.nodup_cons.mp h
      rcases List.mem_cons.mp hr with rfl | hr
      · have hnone : rows.filter (fun r' => key r' == key r) = [] := by
          refine List.filter_eq_nil_iff.mpr fun r' hr' hkey => hfresh ?_
          rw [← eq_of_beq hkey]
          exact List.mem_map_of_mem hr'
        rw [List.filter_cons_of_pos (by simp), hnone]
      · have hne : key r' ≠ key r := fun hkey => hfresh (hkey ▸ List.mem_map_of_mem hr)
        rw [List.filter_cons_of_neg (by simpa using hne), ih h hr]

end Keys

/-- Keys are unique, and the sequence has given them out. -/
structure Ok (c : Columns α ω) (rows : List α) (last : Int) : Prop where
  nodup : (rows.map c.key).Nodup
  drawn : ∀ r ∈ rows, c.key r ≤ last

/-- What becomes of a table: keys drawn before keep their owner, or are gone for
good. -/
structure Later (c : Columns α ω) (rows : List α) (last : Int) (rows' : List α) (last' : Int) :
    Prop where
  advanced : last ≤ last'
  owners : ∀ r' ∈ rows', c.key r' ≤ last → ∃ r ∈ rows, c.key r = c.key r' ∧ c.owner r = c.owner r'

/-- The key `k` has been drawn, and whatever row has it is of `u`. -/
structure Owned (c : Columns α ω) (rows : List α) (last : Int) (k : Int) (u : ω) : Prop where
  drawn : k ≤ last
  owner : ∀ r ∈ rows, c.key r = k → c.owner r = u

/-! ### Time passes -/

theorem Later.refl (c : Columns α ω) (rows : List α) (last : Int) : Later c rows last rows last :=
  ⟨le_rfl, fun r hr _ => ⟨r, hr, rfl, rfl⟩⟩

theorem Later.trans (h : Later c rows last rows' last') (h' : Later c rows' last' rows'' last'') :
    Later c rows last rows'' last'' where
  advanced := h.advanced.trans h'.advanced
  owners r'' hr'' hle := by
    obtain ⟨r', hr', hkey', howner'⟩ := h'.owners r'' hr'' (hle.trans h.advanced)
    obtain ⟨r, hr, hkey, howner⟩ := h.owners r' hr' (hkey' ▸ hle)
    exact ⟨r, hr, hkey.trans hkey', howner.trans howner'⟩

/-- A key that is gone does not come back. -/
theorem Later.gone (h : Later c rows last rows' last') {k : Int} (hk : k ≤ last)
    (hgone : ∀ r ∈ rows, c.key r ≠ k) : ∀ r' ∈ rows', c.key r' ≠ k := by
  intro r' hr' hkey
  obtain ⟨r, hr, hr', -⟩ := h.owners r' hr' (hkey ▸ hk)
  exact hgone r hr (hr'.trans hkey)

/-- Who owns a key stays settled: later rows with the key have the same owner, if there
are any. -/
theorem Owned.later {k : Int} {u : ω} (ho : Owned c rows last k u)
    (h : Later c rows last rows' last') : Owned c rows' last' k u where
  drawn := ho.drawn.trans h.advanced
  owner r' hr' hkey := by
    obtain ⟨r, hr, hr', howner⟩ := h.owners r' hr' (hkey ▸ ho.drawn)
    rw [← howner]
    exact ho.owner r hr (hr'.trans hkey)

/-! ### Look-ups -/

/-- Two rows with the same key are the same row. -/
theorem Ok.eq_of_key (h : Ok c rows last) {r r' : α} (hr : r ∈ rows) (hr' : r' ∈ rows)
    (hkey : c.key r = c.key r') : r = r' :=
  List.inj_on_of_nodup_map h.nodup hr hr' hkey

theorem Ok.owned (h : Ok c rows last) {r : α} (hr : r ∈ rows) :
    Owned c rows last (c.key r) (c.owner r) where
  drawn := h.drawn r hr
  owner r' hr' hkey := by rw [h.eq_of_key hr' hr hkey]

/-! ### Statements -/

/-- An `INSERT` with the next value of the sequence. -/
theorem Ok.insert (h : Ok c rows last) {r : α} (hkey : c.key r = last + 1) :
    Ok c (rows ++ [r]) (c.key r) where
  nodup := nodup_keys_append h.nodup fun r' hr' => by
    have := h.drawn r' hr'
    omega
  drawn r' hr' := by
    rcases List.mem_append.mp hr' with hr' | hr'
    · have := h.drawn r' hr'
      omega
    · rw [List.mem_singleton.mp hr']

theorem later_insert {r : α} (hkey : c.key r = last + 1) :
    Later c rows last (rows ++ [r]) (c.key r) where
  advanced := by omega
  owners r' hr' hle := by
    rcases List.mem_append.mp hr' with hr' | hr'
    · exact ⟨r', hr', rfl, rfl⟩
    · rw [List.mem_singleton.mp hr'] at hle
      omega

/-- A `DELETE` takes rows away, and never an id back. -/
theorem Ok.filter (h : Ok c rows last) (p : α → Bool) : Ok c (rows.filter p) last where
  nodup := h.nodup.sublist (List.filter_sublist.map _)
  drawn r hr := h.drawn r (List.mem_of_mem_filter hr)

theorem later_filter (p : α → Bool) : Later c rows last (rows.filter p) last where
  advanced := le_rfl
  owners r hr _ := ⟨r, List.mem_of_mem_filter hr, rfl, rfl⟩

/-- An `UPDATE` of other columns. -/
theorem Ok.map (h : Ok c rows last) {f : α → α} (hf : ∀ r, c.key (f r) = c.key r) :
    Ok c (rows.map f) last where
  nodup := by
    rw [List.map_map, show c.key ∘ f = c.key from funext hf]
    exact h.nodup
  drawn r' hr' := by
    obtain ⟨r, hr, rfl⟩ := List.mem_map.mp hr'
    rw [hf]
    exact h.drawn r hr

theorem later_map {f : α → α} (hf : ∀ r, c.key (f r) = c.key r)
    (ho : ∀ r, c.owner (f r) = c.owner r) : Later c rows last (rows.map f) last where
  advanced := le_rfl
  owners r' hr' _ := by
    obtain ⟨r, hr, rfl⟩ := List.mem_map.mp hr'
    exact ⟨r, hr, (hf r).symm, (ho r).symm⟩

end Serial
