import Desugar.World

/-!
# Outcomes of jobs

A job ends with a result or a failure, and leaves a world behind either way: `Job.outcome` is both.
A job in two parts fails with its first part or goes on with the second in the world that the first
has left (`Job.bind_cases`).

The primitive jobs are met with their failures put in other words.  Reading never changes the world,
and a change that fails does not either, so for each of them there is a statement on how it fails
and one on how it succeeds.
-/

namespace Desugar

namespace Job

variable {ε δ α β : Type} {world after : World}

/-- How a job ends in a world, and the world it leaves. -/
def outcome (job : Job ε α) (world : World) : Except ε α × World :=
  StateT.run (ExceptT.run job) world

@[simp] theorem outcome_pure (a : α) : (pure a : Job ε α).outcome world = (.ok a, world) := rfl

@[simp] theorem outcome_get : (get : Job ε World).outcome world = (.ok world, world) := rfl

@[simp] theorem outcome_mk (result : Except ε α) :
    outcome (ExceptT.mk (pure result)) world = (result, world) := rfl

theorem outcome_bind (job : Job ε α) (next : α → Job ε β) :
    (job >>= next).outcome world =
      match job.outcome world with
      | (.ok a, world) => (next a).outcome world
      | (.error error, world) => (.error error, world) := by
  change StateT.run (ExceptT.run job >>= ExceptT.bindCont next) world = _
  rw [StateT.run_bind]
  change (ExceptT.bindCont next (job.outcome world).1).run (job.outcome world).2 = _
  rcases job.outcome world with ⟨error | a, world'⟩ <;> rfl

/-- A job in two parts ends with the failure of its first part, or as its second part does. -/
theorem bind_cases {job : Job ε α} {next : α → Job ε β} {result : Except ε β}
    (h : (job >>= next).outcome world = (result, after)) :
    (∃ error, job.outcome world = (.error error, after) ∧ result = .error error) ∨
      ∃ a middle, job.outcome world = (.ok a, middle) ∧
        (next a).outcome middle = (result, after) := by
  rw [outcome_bind] at h
  rcases hjob : job.outcome world with ⟨error | a, middle⟩
  · rw [hjob] at h
    obtain ⟨rfl, rfl⟩ := Prod.mk.inj h
    exact .inl ⟨error, rfl, rfl⟩
  · rw [hjob] at h
    exact .inr ⟨a, middle, rfl, h⟩

/-- A job that reads the world goes on in the same world. -/
theorem outcome_get_bind (next : World → Job ε α) :
    (get >>= next).outcome world = (next world).outcome world := by
  rw [outcome_bind, outcome_get]

theorem outcome_orFail (job : Job ε α) (describe : ε → δ) :
    (job.orFail describe).outcome world =
      ((job.outcome world).1.mapError describe, (job.outcome world).2) :=
  rfl

@[simp] theorem outcome_attempt (job : Job ε α) :
    (job.attempt : Job δ (Except ε α)).outcome world =
      (.ok (job.outcome world).1, (job.outcome world).2) :=
  rfl

theorem mapError_eq_ok_iff {result : Except ε α} {describe : ε → δ} {a : α} :
    result.mapError describe = .ok a ↔ result = .ok a := by
  cases result with
  | error error => exact ⟨fun h => (nomatch h), fun h => (nomatch h)⟩
  | ok b => exact ⟨fun h => congrArg _ (Except.ok.inj h), fun h => congrArg _ (Except.ok.inj h)⟩

theorem of_orFail_ok {job : Job ε α} {describe : ε → δ} {a : α}
    (h : (job.orFail describe).outcome world = (.ok a, after)) :
    job.outcome world = (.ok a, after) := by
  rw [outcome_orFail] at h
  obtain ⟨hresult, rfl⟩ := Prod.mk.inj h
  exact Prod.ext (mapError_eq_ok_iff.mp hresult) rfl

theorem of_orFail_error {job : Job ε α} {describe : ε → δ} {error : δ}
    (h : (job.orFail describe).outcome world = (.error error, after)) :
    ∃ cause, job.outcome world = (.error cause, after) := by
  rw [outcome_orFail] at h
  obtain ⟨hresult, rfl⟩ := Prod.mk.inj h
  cases hjob : (job.outcome world).1 with
  | error cause => exact ⟨cause, Prod.ext hjob rfl⟩
  | ok a =>
    rw [mapError_eq_ok_iff.mpr hjob] at hresult
    exact absurd hresult (by simp)

/-! ## Reading -/

section look

variable {query : FileTree → Place → Except SystemError α} {describe : SystemError → δ}

theorem outcome_look (query : FileTree → Place → Except SystemError α) :
    (look query).outcome world = (query world.tree world.cwd, world) := by
  rw [look, outcome_get_bind, outcome_mk]

theorem of_look_ok {a : α} (h : ((look query).orFail describe).outcome world = (.ok a, after)) :
    query world.tree world.cwd = .ok a ∧ after = world := by
  have := of_orFail_ok h
  rw [outcome_look] at this
  obtain ⟨hquery, rfl⟩ := Prod.mk.inj this
  exact ⟨hquery, rfl⟩

theorem of_look_error {error : δ}
    (h : ((look query).orFail describe).outcome world = (.error error, after)) : after = world := by
  obtain ⟨cause, hcause⟩ := of_orFail_error h
  rw [outcome_look] at hcause
  exact (Prod.mk.inj hcause).2.symm

end look

/-! ## Changing files -/

section change

variable {update : FileTree → Place → Except SystemError FileTree} {describe : SystemError → δ}

theorem outcome_change (update : FileTree → Place → Except SystemError FileTree) :
    (change update).outcome world =
      match update world.tree world.cwd with
      | .ok tree => (.ok (), { world with tree })
      | .error error => (.error error, world) := by
  rw [change, outcome_get_bind, outcome_bind, outcome_mk]
  cases update world.tree world.cwd <;> rfl

theorem of_change_ok (h : ((change update).orFail describe).outcome world = (.ok (), after)) :
    ∃ tree, update world.tree world.cwd = .ok tree ∧ after = { world with tree } := by
  have := of_orFail_ok h
  rw [outcome_change] at this
  cases hupdate : update world.tree world.cwd with
  | ok tree =>
    rw [hupdate] at this
    exact ⟨tree, rfl, (Prod.mk.inj this).2.symm⟩
  | error error =>
    rw [hupdate] at this
    exact absurd (Prod.mk.inj this).1 (by simp)

theorem of_change_error {error : δ}
    (h : ((change update).orFail describe).outcome world = (.error error, after)) :
    after = world := by
  obtain ⟨cause, hcause⟩ := of_orFail_error h
  rw [outcome_change] at hcause
  cases hupdate : update world.tree world.cwd with
  | ok tree =>
    rw [hupdate] at hcause
    exact absurd (Prod.mk.inj hcause).1 (by simp)
  | error error =>
    rw [hupdate] at hcause
    exact (Prod.mk.inj hcause).2.symm

theorem outcome_changeAll (update : FileTree → Place → Except SystemError Unit × FileTree) :
    (changeAll update).outcome world =
      ((update world.tree world.cwd).1, { world with tree := (update world.tree world.cwd).2 }) :=
  rfl

end change

/-! ## Writing files -/

section write

variable {path : Path} {content : ByteArray} {describe : SystemError → δ}

/-- What goes to a standard stream is no part of the tree. -/
theorem outcome_write (world : World) (path : Path) (content : ByteArray) :
    (∃ error, (write path content).outcome world = (.error error, world) ∧
        world.tree.write world.cwd path content = .error error) ∨
      ∃ after, (write path content).outcome world = (.ok (), after) ∧
        world.tree.write world.cwd path content = .ok after.tree ∧ after.cwd = world.cwd := by
  rw [write, outcome_get_bind, outcome_bind, outcome_change]
  cases world.tree.write world.cwd path content with
  | error error => exact .inl ⟨error, rfl, rfl⟩
  | ok tree =>
    right
    simp only
    split
    · exact ⟨{ world with tree, stdout := world.stdout ++ content }, rfl, rfl, rfl⟩
    · exact ⟨{ world with tree, stderr := world.stderr ++ content }, rfl, rfl, rfl⟩
    · exact ⟨{ world with tree }, rfl, rfl, rfl⟩

theorem of_write_ok
    (h : ((write path content).orFail describe).outcome world = (.ok (), after)) :
    world.tree.write world.cwd path content = .ok after.tree ∧ after.cwd = world.cwd := by
  rcases outcome_write world path content with ⟨error, hfailed, -⟩ | ⟨after', hwritten, hafter⟩
  · exact absurd (hfailed.symm.trans (of_orFail_ok h)) (by simp)
  · obtain ⟨-, rfl⟩ := Prod.mk.inj (hwritten.symm.trans (of_orFail_ok h))
    exact hafter

theorem of_write_error {error : δ}
    (h : ((write path content).orFail describe).outcome world = (.error error, after)) :
    after = world := by
  obtain ⟨cause, hcause⟩ := of_orFail_error h
  rcases outcome_write world path content with ⟨error, hfailed, -⟩ | ⟨after', hwritten, -⟩
  · exact (Prod.mk.inj (hfailed.symm.trans hcause)).2.symm
  · exact absurd (hwritten.symm.trans hcause) (by simp)

end write

end Job

end Desugar
