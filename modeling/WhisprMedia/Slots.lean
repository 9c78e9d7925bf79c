import WhisprMedia.ServiceRules

/-! The places a command may write to: a slot of a store that is addressed by keys. What no
command of a run addresses is at the end as it was at the start. -/
namespace WhisprMedia
open Awaiting

inductive Slot where
  | counter (key : String)
  | cooldown (key : String)
  | dedupEntry (key : String)
  | metaEntry (key : String)
  | quotaEntry (key : String)
  | object (key : String)
  deriving DecidableEq

/-- The slot a command writes, if it writes one. -/
def Cmd.slot? : Cmd → Option Slot
  | .incr key | .decr key | .del key | .expire key _ => some (.counter key)
  | .setNxEx key _ => some (.cooldown key)
  | .setDedup key _ _ => some (.dedupEntry key)
  | .setMeta key _ _ | .delMeta key => some (.metaEntry key)
  | .setQuota key _ _ | .delQuota key => some (.quotaEntry key)
  | .putObject key _ | .deleteObject key => some (.object key)
  | _ => none

/-- The two worlds agree at the slot. -/
def SameAt (w w' : World) : Slot → Prop
  | .counter key => w'.semaphores key = w.semaphores key
  | .cooldown key => w'.cooldowns key = w.cooldowns key
  | .dedupEntry key => w'.dedupCache key = w.dedupCache key
  | .metaEntry key => w'.metaCache key = w.metaCache key
  | .quotaEntry key => w'.quotaCache key = w.quotaCache key
  | .object key => w'.bucket key = w.bucket key

theorem SameAt.refl (w : World) (s : Slot) : SameAt w w s := by
  cases s <;> rfl

theorem SameAt.trans {w w' w'' : World} {s : Slot} (h : SameAt w w' s) (h' : SameAt w' w'' s) :
    SameAt w w'' s := by
  cases s <;> exact Eq.trans h' h

/-- A command leaves every other slot as it is. -/
theorem exec_sameAt {env : Env} {c : Cmd} {w : World} {s : Slot} (h : c.slot? ≠ some s) :
    SameAt w (env.exec c w).2 s := by
  have hne {α : Type} {f : String → α} {key k : String} {a : α} (hk : key ≠ k) :
      Function.update f key a k = f k := Function.update_of_ne (Ne.symm hk) _ _
  cases s with
  | counter k =>
    by_cases hf : c.family = .semaphore
    · cases c <;> simp only [Cmd.family, reduceCtorEq] at hf <;>
        simp only [Cmd.slot?, ne_eq, Option.some.injEq, Slot.counter.injEq] at h <;>
        exact hne h
    · exact congrFun (exec_semaphores hf) k
  | cooldown k =>
    cases c <;> simp only [Cmd.slot?, ne_eq, Option.some.injEq, Slot.cooldown.injEq, reduceCtorEq,
      not_false_eq_true] at h <;> simp only [SameAt, Env.exec] <;> (repeat' split) <;> first
        | rfl
        | exact hne h
  | dedupEntry k =>
    by_cases hf : c.family = .dedup
    · cases c <;> simp only [Cmd.family, reduceCtorEq] at hf <;>
        simp only [Cmd.slot?, ne_eq, Option.some.injEq, Slot.dedupEntry.injEq] at h <;> first
          | rfl
          | exact hne h
    · exact congrFun (exec_dedupCache hf) k
  | metaEntry k =>
    by_cases hf : c.family = .metadata
    · cases c <;> simp only [Cmd.family, reduceCtorEq] at hf <;>
        simp only [Cmd.slot?, ne_eq, Option.some.injEq, Slot.metaEntry.injEq] at h <;> first
          | rfl
          | exact hne h
    · exact congrFun (exec_metaCache hf) k
  | quotaEntry k =>
    by_cases hf : c.family = .quotaCache ∨ c.family = .quotaFill
    · cases c <;> simp only [Cmd.family, reduceCtorEq, or_self] at hf <;>
        simp only [Cmd.slot?, ne_eq, Option.some.injEq, Slot.quotaEntry.injEq] at h <;> first
          | rfl
          | exact hne h
    · rw [not_or] at hf
      exact congrFun (exec_quotaCache hf.1 hf.2) k
  | object k =>
    by_cases hf : c.family = .bucket
    · cases c <;> simp only [Cmd.family, reduceCtorEq] at hf <;>
        simp only [Cmd.slot?, ne_eq, Option.some.injEq, Slot.object.injEq] at h <;>
        simp only [SameAt, Env.exec] <;> (repeat' split) <;> first
          | rfl
          | exact hne h
    · exact congrFun (exec_bucket hf) k

/-- The slots that the threads of a pool have written so far. -/
def slotsWritten (p : ServicePool) : List Slot :=
  p.threads.flatMap fun t => t.log.filterMap fun e => e.1.slot?

/-- In a run without acts, a slot that nobody has written is as it was. -/
theorem sameAt_of_runs {env : Env} {w : World} {p : ServicePool} {s : Slot}
    (h : (service env).Runs (fun _ l => ∀ a, l ≠ .act a) ⟨w, []⟩ p) (hs : s ∉ slotsWritten p) :
    SameAt w p.world s := by
  induction h with
  | refl => exact SameAt.refl w s
  | @tail p q l _ hok hn ih =>
    rcases System.next_cases hn with ⟨x, -, rfl⟩ | ⟨a, rfl, -⟩ |
      ⟨i, pre, post, x, log, c, k, -, hts, -, rfl⟩
    · refine ih fun hmem => hs ?_
      simp only [slotsWritten, List.flatMap_append, List.mem_append]
      exact Or.inl hmem
    · exact absurd rfl (hok a)
    · have hmem (hp : s ∈ slotsWritten p ∨ c.slot? = some s) : False := by
        refine hs ?_
        simp only [slotsWritten, hts, List.flatMap_append, List.flatMap_cons, List.mem_append,
          List.filterMap_append] at hp ⊢
        rcases hp with ((hp | hp | hp) | hp)
        · exact Or.inl (Or.inl hp)
        · exact Or.inl (Or.inr (Or.inl (Or.inl hp)))
        · exact Or.inl (Or.inr (Or.inr hp))
        · exact Or.inl (Or.inr (Or.inl (Or.inr (by simp [hp]))))
      exact (ih fun hp => hmem (Or.inl hp)).trans (exec_sameAt fun hc => hmem (Or.inr hc))

end WhisprMedia
