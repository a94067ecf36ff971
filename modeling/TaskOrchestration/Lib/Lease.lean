import Mathlib.Data.Nat.Notation
import Mathlib.Logic.Function.Basic
import Mathlib.Tactic.SplitIfs

set_option autoImplicit false

/-!
# Leases on a key

A server keeps one key, which holds a token until a deadline. A client asks for the key with a
token of its own, and asks for more time while the key holds that token.

* `Command`, `Server.exec?`: the two requests, answered in one step of the server;
* `Server.release`, `Server.lose`: a holder gives the key back, and the server loses its data;
* `Server.leases`: for every token the deadline it was last given, which no answer depends on;
* **`Server.Coherent`**, **`Coherent.unique`**: a lease that has not run out is the one the key
  holds, so no two tokens have such leases.
-/

namespace Lease

variable {τ : Type}

/-- The requests: take the key if nobody has it, and extend the deadline of a key one has. -/
inductive Command (τ : Type)
  | setNx (token : τ) (ttl : ℕ)
  | extend (token : τ) (ttl : ℕ)
  deriving DecidableEq, Repr

/-- The server. `leases` is history: the deadline a token was last given. -/
structure Server (τ : Type) where
  now : ℕ
  key : Option (τ × ℕ)
  leases : τ → Option ℕ

namespace Server

def init : Server τ := ⟨0, none, fun _ => none⟩

def advance (s : Server τ) (ms : ℕ) : Server τ := { s with now := s.now + ms }

/-- The token that the key holds, unless its deadline has passed. -/
def holder (s : Server τ) : Option τ :=
  (s.key.filter fun p => s.now < p.2).map Prod.fst

/-- A token had a lease, which has run out. -/
def RunOut (s : Server τ) (token : τ) : Prop := ∃ t, s.leases token = some t ∧ t ≤ s.now

/-- **Coherence**: a lease that has not run out is the one that the key holds. -/
def Coherent (s : Server τ) : Prop :=
  ∀ token t, s.leases token = some t → s.key = some (token, t) ∨ t ≤ s.now

section

variable [DecidableEq τ]

/-- Give the key to a token. -/
def grant (s : Server τ) (token : τ) (ttl : ℕ) : Server τ where
  now := s.now
  key := some (token, s.now + ttl)
  leases := Function.update s.leases token (some (s.now + ttl))

/-- **One request.** A key is not set with no time to live: the server answers with an error. -/
def exec? (s : Server τ) : Command τ → Option (Server τ × Bool)
  | .setNx _ 0 => none
  | .setNx token ttl =>
      some (if s.holder = none then (s.grant token ttl, true) else (s, false))
  | .extend token ttl =>
      some (if s.holder = some token then (s.grant token ttl, true) else (s, false))

/-- **Give the key back**, which ends the lease of its holder. Nobody else may. -/
def release (s : Server τ) (token : τ) : Server τ × Bool :=
  if s.holder = some token then
    ({ s with key := none, leases := Function.update s.leases token none }, true)
  else (s, false)

end

/-- The server loses its data, and all leases end. -/
def lose (s : Server τ) : Server τ := { s with key := none, leases := fun _ => none }

variable {s s' : Server τ}

theorem holder_eq_some {token : τ} :
    s.holder = some token ↔ ∃ t, s.key = some (token, t) ∧ s.now < t := by
  rw [holder]
  cases s.key with
  | none => simp
  | some p =>
      obtain ⟨tok, t⟩ := p
      simp only [Option.map_eq_some_iff, Option.filter_eq_some_iff, Option.some.injEq,
        decide_eq_true_eq]
      constructor
      · rintro ⟨p, ⟨rfl, hlt⟩, rfl⟩
        exact ⟨t, rfl, hlt⟩
      · rintro ⟨t', h, hlt⟩
        exact ⟨_, ⟨h, hlt⟩, rfl⟩

theorem holder_eq_none : s.holder = none ↔ ∀ token t, s.key = some (token, t) → t ≤ s.now := by
  constructor
  · intro h token t hk
    by_contra hlt
    have : s.holder = some token := holder_eq_some.mpr ⟨t, hk, Nat.lt_of_not_le hlt⟩
    rw [h] at this
    cases this
  · intro h
    cases hh : s.holder with
    | none => rfl
    | some token =>
        obtain ⟨t, hk, hlt⟩ := holder_eq_some.mp hh
        exact absurd (h token t hk) (Nat.not_le.mpr hlt)

theorem coherent_init : (init : Server τ).Coherent := nofun

theorem Coherent.advance (h : s.Coherent) (ms : ℕ) : (s.advance ms).Coherent :=
  fun token t ht => (h token t ht).imp_right fun hle => Nat.le_trans hle (Nat.le_add_right _ _)

theorem coherent_lose (s : Server τ) : s.lose.Coherent := nofun

/-- **No two leases.** Of two tokens that were given the key, the lease of one has run out. -/
theorem Coherent.unique (h : s.Coherent) {a b : τ} (hab : a ≠ b) (ha : s.leases a ≠ none)
    (hb : s.leases b ≠ none) : s.RunOut a ∨ s.RunOut b := by
  obtain ⟨t, ht⟩ := Option.ne_none_iff_exists'.mp ha
  obtain ⟨u, hu⟩ := Option.ne_none_iff_exists'.mp hb
  rcases h a t ht with hk | hle
  · rcases h b u hu with hk' | hle
    · rw [hk] at hk'
      exact absurd (congrArg Prod.fst (Option.some.inj hk')) hab
    · exact .inr ⟨u, hu, hle⟩
  · exact .inl ⟨t, ht, hle⟩

variable [DecidableEq τ]

theorem Coherent.grant (h : s.Coherent) {token : τ} (ttl : ℕ)
    (hh : s.holder = none ∨ s.holder = some token) : (s.grant token ttl).Coherent := by
  intro token' t ht
  by_cases heq : token' = token
  · subst heq
    simp only [Server.grant, Function.update_self, Option.some.injEq] at ht
    rw [← ht]
    exact .inl rfl
  · have ht : s.leases token' = some t := by
      rw [← ht]
      exact (Function.update_of_ne heq ..).symm
    refine .inr ((h token' t ht).elim (fun hk => ?_) id)
    rcases hh with hh | hh
    · exact holder_eq_none.mp hh token' t hk
    · obtain ⟨u, hu, -⟩ := holder_eq_some.mp hh
      rw [hk] at hu
      exact absurd (congrArg Prod.fst (Option.some.inj hu)) heq

/-- **A request**: the server is left alone, or it gives the key to the token that asks. -/
theorem exec?_eq_some {c : Command τ} {answer : Bool} (h : s.exec? c = some (s', answer)) :
    (answer = false ∧ s' = s) ∨
      ∃ token ttl, answer = true ∧ s' = s.grant token ttl ∧
        (c = .setNx token ttl ∧ s.holder = none ∨
          c = .extend token ttl ∧ s.holder = some token) := by
  cases c with
  | setNx token ttl =>
      cases ttl with
      | zero => cases h
      | succ n =>
          simp only [exec?] at h
          split_ifs at h with hh
          · cases h
            exact .inr ⟨token, n + 1, rfl, rfl, .inl ⟨rfl, hh⟩⟩
          · cases h
            exact .inl ⟨rfl, rfl⟩
  | extend token ttl =>
      rw [exec?] at h
      split_ifs at h with hh
      · cases h
        exact .inr ⟨token, ttl, rfl, rfl, .inr ⟨rfl, hh⟩⟩
      · cases h
        exact .inl ⟨rfl, rfl⟩

theorem Coherent.exec (h : s.Coherent) {c : Command τ} {answer : Bool}
    (hx : s.exec? c = some (s', answer)) : s'.Coherent := by
  obtain ⟨-, rfl⟩ | ⟨token, ttl, -, rfl, hh⟩ := exec?_eq_some hx
  · exact h
  · exact h.grant ttl (hh.imp And.right And.right)

/-- **Giving back**: nothing happens, or the holder gives the key back. -/
theorem release_eq {token : τ} {answer : Bool} (h : s.release token = (s', answer)) :
    (answer = false ∧ s' = s ∧ s.holder ≠ some token) ∨
      answer = true ∧ s.holder = some token ∧
        s' = { s with key := none, leases := Function.update s.leases token none } := by
  unfold release at h
  split_ifs at h with hh
  · obtain ⟨rfl, rfl⟩ := Prod.mk.inj h
    exact .inr ⟨rfl, hh, rfl⟩
  · obtain ⟨rfl, rfl⟩ := Prod.mk.inj h
    exact .inl ⟨rfl, rfl, hh⟩

theorem Coherent.release (h : s.Coherent) (token : τ) : (s.release token).1.Coherent := by
  unfold Server.release
  split_ifs with hh
  · intro token' t ht
    dsimp only at ht
    by_cases heq : token' = token
    · subst heq
      simp at ht
    · rw [Function.update_of_ne heq] at ht
      refine .inr ((h token' t ht).elim (fun hk => ?_) id)
      obtain ⟨u, hu, -⟩ := holder_eq_some.mp hh
      rw [hk] at hu
      exact absurd (congrArg Prod.fst (Option.some.inj hu)) heq
  · exact h

theorem leases_exec {c : Command τ} {answer : Bool} (hx : s.exec? c = some (s', answer))
    {token : τ} (h : s.leases token ≠ none) : s'.leases token ≠ none := by
  obtain ⟨-, rfl⟩ | ⟨token', ttl, -, rfl, -⟩ := exec?_eq_some hx
  · exact h
  · by_cases heq : token = token' <;> simp [Server.grant, heq, h]

theorem leases_of_setNx {token : τ} {ttl : ℕ}
    (hx : s.exec? (.setNx token ttl) = some (s', true)) : s'.leases token ≠ none := by
  obtain ⟨h, -⟩ | ⟨token', ttl', -, rfl, ⟨hc, -⟩ | ⟨hc, -⟩⟩ := exec?_eq_some hx
  · cases h
  · cases hc
    simp [Server.grant]
  · cases hc

end Server

end Lease
