import LibraryService.General.Effect
import Mathlib.Logic.Function.Basic

/-!
# Computations through a store

A store of earlier answers in front of a computation, what a run through it never asks again, and
which runs can be repeated without asking.
-/

open Effect

namespace Memo

variable {υ κ V ε α β ι : Type}

abbrev Store (κ V : Type) := κ → Option V

/-- The later store still has what the earlier one had. -/
def Extends (later earlier : Store κ V) : Prop := ∀ k v, earlier k = some v → later k = some v

theorem Extends.refl (c : Store κ V) : Extends c c := fun _ _ h => h

theorem Extends.trans {a b c : Store κ V} (h : Extends a b) (h' : Extends b c) : Extends a c :=
  fun k v hv => h k v (h' k v hv)

variable [DecidableEq κ]

def lookUp (key : κ) : Eff (υ × Store κ V) ε (Option V) := Eff.of fun s => (.ok (s.2 key), s)

def keep (key : κ) (v : V) : Eff (υ × Store κ V) ε Unit :=
  Eff.of fun s => (.ok (), s.1, Function.update s.2 key (some v))

/-- An answer that is stored is taken; any other is asked for, and stored. -/
def memo (key : κ) (ask : Eff υ ε V) : Eff (υ × Store κ V) ε V := do
  match ← lookUp key with
  | some v => pure v
  | none => do
    let v ← Eff.onFst ask
    keep key v
    pure v

variable {key : κ} {ask : Eff υ ε V} {u : υ} {c : Store κ V} {v : V}

theorem memo_hit (h : c key = some v) : (memo key ask).runOn (u, c) = (.ok v, u, c) := by
  have hlook : (lookUp key : Eff (υ × Store κ V) ε (Option V)).runOn (u, c) = (.ok (some v), u, c) := by
    rw [← h]
    rfl
  unfold memo
  rw [runOn_bind_ok hlook]
  rfl

theorem memo_miss (h : c key = none) : (memo key ask).runOn (u, c) =
    match ask.runOn u with
    | (.ok v, u') => (.ok v, u', Function.update c key (some v))
    | (.error e, u') => (.error e, u', c) := by
  have hlook : (lookUp key : Eff (υ × Store κ V) ε (Option V)).runOn (u, c) = (.ok none, u, c) := by
    rw [← h]
    rfl
  unfold memo
  rw [runOn_bind_ok hlook]
  dsimp only
  rw [runOn_bind, runOn_onFst]
  cases ask.runOn u with
  | mk r u' => cases r <;> rfl

theorem extends_update (h : c key = none) : Extends (Function.update c key (some v)) c := by
  intro k w hw
  rw [Function.update_of_ne]
  · exact hw
  · rintro rfl
    rw [h] at hw
    cases hw

/-! ## Runs that can be repeated -/

/-- Where it returned, it returns the same again at once, from every store that still has what was
stored by then. -/
def Replays (x : Eff (υ × Store κ V) ε α) : Prop :=
  ∀ s a t, x.runOn s = (.ok a, t) →
    Extends t.2 s.2 ∧ ∀ w, Extends w.2 t.2 → x.runOn w = (.ok a, w)

omit [DecidableEq κ] in
theorem replays_pure (a : α) : Replays (pure a : Eff (υ × Store κ V) ε α) := by
  intro s b t h
  cases h
  exact ⟨.refl _, fun _ _ => rfl⟩

omit [DecidableEq κ] in
theorem Replays.bind {x : Eff (υ × Store κ V) ε α} {f : α → Eff (υ × Store κ V) ε β}
    (hx : Replays x) (hf : ∀ a, Replays (f a)) : Replays (x >>= f) := by
  intro s b t h
  obtain ⟨a, m, hxs, hfa⟩ := bind_eq_ok h
  obtain ⟨hext, hagain⟩ := hx s a m hxs
  obtain ⟨hext', hagain'⟩ := hf a m b t hfa
  refine ⟨hext'.trans hext, fun w hw => ?_⟩
  rw [runOn_bind_ok (hagain w (hw.trans hext'))]
  exact hagain' w hw

theorem replays_memo (key : κ) (ask : Eff υ ε V) : Replays (memo key ask) := by
  rintro ⟨u, c⟩ a t h
  cases hc : c key with
  | some v =>
    rw [memo_hit hc] at h
    cases h
    exact ⟨.refl _, fun w hw => memo_hit (hw key a hc)⟩
  | none =>
    rw [memo_miss hc] at h
    cases hask : ask.runOn u with
    | mk r u' =>
      rw [hask] at h
      cases r with
      | error e => cases h
      | ok v =>
        cases h
        exact ⟨extends_update hc, fun w hw => memo_hit (hw key a (Function.update_self ..))⟩

/-! ## What was asked -/

/-- The computation notes what it was asked for where it answers. -/
def noting (ask : ι → Eff υ ε V) (i : ι) : Eff (υ × List ι) ε V := do
  let v ← Eff.onFst (ask i)
  modify fun s => (s.1, s.2 ++ [i])
  pure v

theorem noting_runOn (ask : ι → Eff υ ε V) (i : ι) (u : υ) (log : List ι) :
    (noting ask i).runOn (u, log) =
      match (ask i).runOn u with
      | (.ok v, u') => (.ok v, u', log ++ [i])
      | (.error e, u') => (.error e, u', log) := by
  unfold noting
  rw [runOn_bind, runOn_onFst]
  cases (ask i).runOn u with
  | mk r u' => cases r <;> rfl

/-- What the log and the store have come to since a first store: nothing was answered twice, or
where the first store had an answer. -/
structure AskedOnce (keyOf : ι → κ) (first : Store κ V) (log : List ι) (c : Store κ V) : Prop where
  nodup : log.Nodup
  missing : ∀ i ∈ log, first (keyOf i) = none
  stored : ∀ i ∈ log, (c (keyOf i)).isSome = true
  grown : Extends c first

omit [DecidableEq κ] in
theorem askedOnce_nil (keyOf : ι → κ) (first : Store κ V) : AskedOnce keyOf first [] first :=
  ⟨.nil, fun _ hi => absurd hi List.not_mem_nil, fun _ hi => absurd hi List.not_mem_nil, .refl _⟩

theorem AskedOnce.answered {keyOf : ι → κ} (hkey : Function.Injective keyOf) {first : Store κ V}
    {log : List ι} {i : ι} (h : AskedOnce keyOf first log c) (hc : c (keyOf i) = none) (v : V) :
    AskedOnce keyOf first (log ++ [i]) (Function.update c (keyOf i) (some v)) := by
  have hnew : i ∉ log := fun hi => by simpa [hc] using h.stored i hi
  have hfirst : first (keyOf i) = none := by
    refine Option.eq_none_iff_forall_ne_some.mpr fun v hv => ?_
    rw [h.grown _ v hv] at hc
    cases hc
  refine ⟨?_, fun j hj => ?_, fun j hj => ?_, (extends_update hc).trans h.grown⟩
  · exact (List.perm_append_singleton i log).nodup_iff.mpr (List.nodup_cons.mpr ⟨hnew, h.nodup⟩)
  · rcases List.mem_append.mp hj with hj | hj
    · exact h.missing j hj
    · rw [List.mem_singleton.mp hj]
      exact hfirst
  · by_cases hij : j = i
    · simp [hij]
    · rw [Function.update_of_ne (hkey.ne hij)]
      rcases List.mem_append.mp hj with hj | hj
      · exact h.stored j hj
      · exact absurd (List.mem_singleton.mp hj) hij

/-- Whether it returns or raises, it keeps an invariant of the state. -/
def Keeps {σ : Type} (I : σ → Prop) (x : Eff σ ε α) : Prop := ∀ s, I s → I (x.runOn s).2

theorem keeps_pure {σ : Type} {I : σ → Prop} (a : α) : Keeps I (pure a : Eff σ ε α) :=
  fun _ h => h

theorem Keeps.bind {σ : Type} {I : σ → Prop} {x : Eff σ ε α} {f : α → Eff σ ε β} (hx : Keeps I x)
    (hf : ∀ a, Keeps I (f a)) : Keeps I (x >>= f) := by
  intro s hs
  have hm := hx s hs
  rw [runOn_bind]
  cases hxs : x.runOn s with
  | mk r m =>
    rw [hxs] at hm
    cases r with
    | ok a => exact hf a m hm
    | error e => exact hm

theorem memo_askedOnce {keyOf : ι → κ} (hkey : Function.Injective keyOf) (first : Store κ V)
    (ask : ι → Eff υ ε V) (i : ι) :
    Keeps (fun s => AskedOnce keyOf first s.1.2 s.2) (memo (keyOf i) (noting ask i)) := by
  rintro ⟨⟨u, log⟩, c⟩ h
  cases hc : c (keyOf i) with
  | some v =>
    rw [memo_hit hc]
    exact h
  | none =>
    rw [memo_miss hc, noting_runOn]
    cases (ask i).runOn u with
    | mk r u' =>
      cases r with
      | error e => exact h
      | ok v => exact h.answered hkey hc v

end Memo
