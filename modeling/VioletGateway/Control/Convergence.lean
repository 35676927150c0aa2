import VioletGateway.Control.Interleave

/-!
# Convergence of the control plane

A poll that nobody disturbs leaves the table with the configuration that was published last, whatever
the polls before it have seen, and the polls after it change nothing. The only condition is that the
version has not gone round since the last successful poll loaded it: a poll that is held up for a whole
round takes the present version for the old one.
-/

set_option autoImplicit false

namespace VioletGateway

open Support

namespace Shm

namespace Control

/-! ## Loads in a row -/

variable {s : Control} {m : ByteMem}

theorem resume_resume (s : Control) (p : Option Polling) (q : Polling) (rest : Loads Found) :
    resume { s with poll := p } q rest = s.resume q rest := by
  rcases rest with _ | _ | _ <;> rfl

/-- With nobody storing, a poll makes the loads of its program on the memory at rest. -/
theorem run_steps {n : Nat} {rest rest' : Loads Found} (h : Loads.Steps s.mem n rest rest')
    (q : Polling) :
    ∃ q', run step (s.resume q rest) (List.replicate n .load) = s.resume q' rest' ∧
      (s.stored = [] → q'.overlapped = q.overlapped) := by
  induction h generalizing q with
  | refl p => exact ⟨q, rfl, fun _ => rfl⟩
  | @load m off n k p' h ih =>
      obtain ⟨q', hq', hover⟩ := ih (s.note off { q with rest := .load off n k })
      rw [← resume_resume s (some { q with rest := .load off n k })] at hq'
      refine ⟨q', hq', fun hnone => (hover hnone).trans ?_⟩
      simp [note, hnone]

/-! ## One undisturbed poll -/

/-- The steps of a poll that nobody disturbs. -/
def pollEvents (s : Control) : List Event :=
  .poll :: List.replicate ((pollApply s.lastApplied).accesses s.mem).length .load

/-- The state after a poll that nobody disturbs. -/
def pollOnce (s : Control) : Control := run step s s.pollEvents

theorem pollOnce_eq (h : s.poll = none) :
    ∃ q, s.pollOnce = s.resume q (.done ((pollApply s.lastApplied).runOn s.mem)) := by
  obtain ⟨q, hq, -⟩ := run_steps (Loads.steps_done (pollApply s.lastApplied))
    { rest := pollApply s.lastApplied }
  refine ⟨q, ?_⟩
  rw [← hq, pollOnce, pollEvents, run_cons, step, h]
  rfl

/-- A poll that finds nothing changes nothing. -/
theorem pollOnce_of_none (h : s.poll = none) (hnone : (pollApply s.lastApplied).runOn s.mem = none) :
    s.pollOnce = s := by
  obtain ⟨q, hq⟩ := pollOnce_eq h
  rw [hq, hnone]
  show { s with poll := none } = s
  rw [← h]

/-- What a poll finds while no publish is under way. -/
theorem Inv.runOn_pollApply_idle (h : s.Inv m) (hpub : s.pub = none) {u : CpUpdate}
    (hu : s.published.getLast? = some u) (lastApplied : UInt32) :
    (pollApply lastApplied).runOn s.mem =
      if versionAt s.published.length = lastApplied then none
      else some (versionAt s.published.length, u) := by
  have hmem := List.mem_of_getLast? hu
  obtain ⟨d, himage⟩ := h.settled.image_eq u hu
  rw [h.mem_eq, stored_of_none hpub, Store.applyAll_nil, himage]
  exact runOn_pollApply d (versionAt_ne_zero (List.length_pos_of_mem hmem)) (h.length_le u hmem) _

/-- What an undisturbed poll leaves: the table has the configuration published last, and there is
nothing more to apply. -/
structure Converged (s : Control) (u : CpUpdate) : Prop where
  policy_eq : s.table.policy = u.policy
  nodes_eq : s.table.nodes = u.endpoints
  poll_eq : s.poll = none
  finds_none : (pollApply s.lastApplied).runOn s.mem = none

/-- The applied version is the present one only if the table is up to date. -/
theorem Inv.config_of_applied (h : s.Inv m) (hpub : s.pub = none) {u : CpUpdate}
    (hu : s.published.getLast? = some u)
    (hfew : ∀ a, s.log.head? = some a → s.published.length - a.seenAt < 4294967295)
    (hver : versionAt s.published.length = s.lastApplied) :
    s.table.policy = u.policy ∧ s.table.nodes = u.endpoints := by
  have hpos : 1 ≤ s.published.length := List.length_pos_of_mem (List.mem_of_getLast? hu)
  cases hlog : s.log with
  | nil =>
      rw [h.never hlog] at hver
      exact absurd hver (versionAt_ne_zero hpos)
  | cons a older =>
      have hhead : s.log.head? = some a := by rw [hlog, List.head?_cons]
      have hlast := h.last a hhead
      have hsound := h.log a (List.mem_of_head? hhead)
      rw [hlast.lastApplied_eq] at hver
      have hseen : s.published.length = a.seenAt :=
        versionAt_inj hsound.pos (le_trans hsound.seenAt_le hsound.doneAt_le) (hfew a hhead) hver
      have hconfig := hlast.current hseen.symm (stored_of_none hpub)
      rw [hu] at hconfig
      cases hconfig
      exact ⟨hlast.policy_eq, hlast.nodes_eq⟩

theorem Inv.converged (h : s.Inv m) (hpub : s.pub = none) (hpoll : s.poll = none) {u : CpUpdate}
    (hu : s.published.getLast? = some u)
    (hfew : ∀ a, s.log.head? = some a → s.published.length - a.seenAt < 4294967295) :
    s.pollOnce.Converged u := by
  have hfinds := h.runOn_pollApply_idle hpub hu
  by_cases hver : versionAt s.published.length = s.lastApplied
  · have hnone : (pollApply s.lastApplied).runOn s.mem = none := by
      rw [hfinds, if_pos hver]
    obtain ⟨hpolicy, hnodes⟩ := h.config_of_applied hpub hu hfew hver
    rw [pollOnce_of_none hpoll hnone]
    exact ⟨hpolicy, hnodes, hpoll, hnone⟩
  · obtain ⟨q, hq⟩ := pollOnce_eq hpoll
    rw [hfinds, if_neg hver] at hq
    rw [hq]
    refine ⟨rfl, rfl, rfl, ?_⟩
    show (pollApply (versionAt s.published.length)).runOn s.mem = none
    rw [hfinds, if_pos rfl]

/-- After an undisturbed poll every further one finds nothing and changes nothing. -/
theorem Converged.stays {u : CpUpdate} (h : s.Converged u) (n : Nat) : pollOnce^[n] s = s :=
  Function.iterate_fixed (pollOnce_of_none h.poll_eq h.finds_none) n

end Control

/-- In every run, whenever no publish and no poll is under way, something has been published, and fewer
than `2 ^ 32 - 1` publishes have been completed since the last successful poll loaded the version, one
undisturbed poll leaves the table with the configuration published last, and every further one finds
nothing and changes nothing. -/
theorem Origin.converges (o : Origin) (es : List Event) (hpub : (o.after es).pub = none)
    (hpoll : (o.after es).poll = none) (hne : (o.after es).published ≠ [])
    (hfew : ∀ a, (o.after es).log.head? = some a →
      (o.after es).published.length - a.seenAt < 2 ^ 32 - 1) :
    ∃ u, (o.after es).published.getLast? = some u ∧
      (o.after es).pollOnce.table.policy = u.policy ∧
      (o.after es).pollOnce.table.nodes = u.endpoints ∧
      (pollApply (o.after es).pollOnce.lastApplied).runOn (o.after es).pollOnce.mem = none ∧
      ∀ n, Control.pollOnce^[n] (o.after es).pollOnce = (o.after es).pollOnce := by
  obtain ⟨m, h⟩ := o.inv_after es
  obtain ⟨u, hu⟩ := Option.ne_none_iff_exists'.mp (mt List.getLast?_eq_none_iff.mp hne)
  have hconv := h.converged hpub hpoll hu hfew
  exact ⟨u, hu, hconv.policy_eq, hconv.nodes_eq, hconv.finds_none, hconv.stays⟩

/-- After the poll that installed a mixture, the next one puts it right. -/
theorem converges_after_labTorn :
    ((Origin.gateway (some labSeed)).after labTorn).pollOnce.table.policy = labNext.policy ∧
      ((Origin.gateway (some labSeed)).after labTorn).pollOnce.table.nodes = labNext.endpoints := by
  have hhead : ((Origin.gateway (some labSeed)).after labTorn).log.head? =
      some ⟨⟨labNext.policy, labSeed.endpoints⟩, 1, 1, true⟩ := by decide +kernel
  have hpublished : ((Origin.gateway (some labSeed)).after labTorn).published =
      [labSeed, labNext] := by decide +kernel
  obtain ⟨u, hu, hpolicy, hnodes, -⟩ := Origin.converges (.gateway (some labSeed)) labTorn
    (Option.isNone_iff_eq_none.mp (by decide +kernel))
    (Option.isNone_iff_eq_none.mp (by decide +kernel)) (by rw [hpublished]; decide)
    (by rw [hhead, hpublished]; intro a ha; cases ha; decide)
  rw [hpublished] at hu
  cases hu
  exact ⟨hpolicy, hnodes⟩

/-! ## A whole round of publishes -/

namespace Control

variable {s : Control}

/-- All the stores of a publish in a row. -/
theorem run_stores {config : CpUpdate} {done rest : List Store} (hne : rest ≠ [])
    (hp : s.pub = some ⟨config, done, rest⟩) :
    run step s (List.replicate rest.length .store) =
      { s with
        mem := Store.applyAll s.mem rest, pub := none, published := s.published ++ [config] } := by
  induction rest generalizing s done with
  | nil => exact absurd rfl hne
  | cons x rest ih =>
      cases rest with
      | nil =>
          show s.step .store = _
          simp only [step, hp]
          rfl
      | cons y rest =>
          have hstep : s.step .store =
              { s with mem := x.apply s.mem, pub := some ⟨config, done ++ [x], y :: rest⟩ } := by
            simp only [step, hp]
          rw [List.length_cons, List.replicate_succ, run_cons, hstep]
          exact ih (List.cons_ne_nil y rest) rfl

/-- A publish that runs through. -/
theorem run_publish (hpub : s.pub = none) {r : Request} (hr : r.Possible s.mem) :
    ∃ es, run step s es =
      { s with
        mem := image s.mem (nextVersion (loadVersion.runOn s.mem)) r.config
        published := s.published ++ [r.config] } := by
  obtain ⟨data, hdata, -⟩ := r.publish_eq s.mem
  have hne : r.publish.runOn s.mem ≠ [] := by
    rw [hdata]
    exact List.append_ne_nil_of_right_ne_nil _ (List.cons_ne_nil _ _)
  refine ⟨.publish r :: List.replicate (r.publish.runOn s.mem).length .store, ?_⟩
  have hstep : s.step (.publish r) = { s with pub := some ⟨r.config, [], r.publish.runOn s.mem⟩ } := by
    simp only [step, hpub, if_pos hr]
  rw [run_cons, hstep, run_stores hne rfl, ← r.applyAll_publish hr, ← hpub]

/-- Any number of publishes of one configuration. -/
theorem run_publishes (hpub : s.pub = none) (hmagic : HasMagic s.mem) (seed : CpUpdate) (n : Nat) :
    ∃ es m, HasMagic m ∧ run step s es =
      { s with mem := m, published := s.published ++ List.replicate n (written seed) } := by
  induction n with
  | zero => exact ⟨[], s.mem, hmagic, by rw [List.replicate_zero, List.append_nil]; rfl⟩
  | succ n ih =>
      obtain ⟨es, m, hm, hrun⟩ := ih
      obtain ⟨es', hrun'⟩ := run_publish (s := run step s es) (r := .cpShm seed)
        (by rw [hrun]; exact hpub) (by rw [hrun]; exact hm)
      refine ⟨es ++ es', _, hasMagic_image m (nextVersion (loadVersion.runOn m)) (written seed), ?_⟩
      rw [run_append, hrun', hrun, List.replicate_succ', ← List.append_assoc]
      rfl

/-- A poll up to some point of its copy. -/
theorem run_copy (hpub : s.pub = none) (hpoll : s.poll = none) {n : Nat} {ver : UInt32}
    {rest : Loads Found} (hsteps : Loads.Steps s.mem n (pollApply s.lastApplied) rest)
    (hcopying : Copying ver rest) :
    ∃ (es : List Event) (q : Polling), q.rest = rest ∧ q.overlapped = false ∧
      run step s es = { s with poll := some q } := by
  obtain ⟨q, hq, hover⟩ := run_steps hsteps { rest := pollApply s.lastApplied }
  refine ⟨.poll :: List.replicate n .load, { q with rest := rest }, rfl,
    hover (stored_of_none hpub), ?_⟩
  rw [run_cons, step, hpoll, ← resume_copying hcopying s q]
  exact hq

/-- More of its copy. -/
theorem run_more (hpub : s.pub = none) {q : Polling} (hq : s.poll = some q) {n : Nat} {ver : UInt32}
    {rest' : Loads Found} (hsteps : Loads.Steps s.mem n q.rest rest') (hcopying : Copying ver q.rest)
    (hcopying' : Copying ver rest') :
    ∃ (es : List Event) (q' : Polling), q'.rest = rest' ∧ q'.overlapped = q.overlapped ∧
      run step s es = { s with poll := some q' } := by
  obtain ⟨q', hq', hover⟩ := run_steps hsteps q
  refine ⟨List.replicate n .load, { q' with rest := rest' }, rfl, hover (stored_of_none hpub), ?_⟩
  rw [resume_copying hcopying, resume_copying hcopying', ← hq] at hq'
  exact hq'

/-- A poll that finds its version still in place installs what it has copied, and the polls after it
find nothing, whatever was published meanwhile. -/
theorem Inv.install_copied {m : ByteMem} (h : s.Inv m) (hpub : s.pub = none)
    (hne : s.published ≠ []) {q : Polling} (hq : s.poll = some q) {policy : UInt8}
    {eps : List UpstreamEndpoint}
    (hrest : q.rest = recheck (versionAt s.published.length) policy eps) :
    ∃ a, s.step .load = { s with
        poll := none
        table := s.table.apply ⟨policyOf policy, eps⟩
        lastApplied := versionAt s.published.length
        log := a :: s.log } ∧
      (a.config = ⟨policyOf policy, eps⟩ ∧
        a.doneAt = s.published.length ∧ a.overlapped = q.overlapped) ∧
      (s.step .load).pollOnce = s.step .load := by
  obtain ⟨u, hu⟩ := Option.ne_none_iff_exists'.mp (mt List.getLast?_eq_none_iff.mp hne)
  have hinstall : s.step .load = { s with
      poll := none
      table := s.table.apply ⟨policyOf policy, eps⟩
      lastApplied := versionAt s.published.length
      log := ⟨⟨policyOf policy, eps⟩,
        (s.note versionOff q).seenAt.getD 0, s.published.length,
        (s.note versionOff q).overlapped⟩ :: s.log } := by
    rw [step_load hq hrest]
    show s.resume _ (if loadVersion.runOn s.mem ≠ _ then pure none else pure _) = _
    rw [h.load_version, if_neg (not_not_intro rfl)]
    rfl
  refine ⟨_, hinstall, ⟨rfl, rfl, note_overlapped_of_lt (by decide) q⟩, ?_⟩
  rw [hinstall]
  apply pollOnce_of_none rfl
  show (pollApply (versionAt s.published.length)).runOn s.mem = none
  rw [h.runOn_pollApply_idle hpub hu, if_pos rfl]

end Control

/-- A poll has come to some point of its copy, and `n` publishes have gone by since. -/
structure HeldUp (n : Nat) (rest : Loads Found) (s : Control) (q : Polling) : Prop where
  rest_eq : q.rest = rest
  overlapped_eq : q.overlapped = false
  pub_eq : s.pub = none
  poll_eq : s.poll = some q
  published_eq : s.published = labSeed :: List.replicate n labNext
  log_eq : s.log = []

theorem HeldUp.length_eq {n : Nat} {rest : Loads Found} {s : Control} {q : Polling}
    (h : HeldUp n rest s q) : s.published.length = n + 1 := by
  rw [h.published_eq, List.length_cons, List.length_replicate]

theorem HeldUp.getLast_eq {n : Nat} {rest : Loads Found} {s : Control} {q : Polling}
    (h : HeldUp n rest s q) (hn : 1 ≤ n) : s.published.getLast? = some labNext := by
  obtain ⟨n, rfl⟩ := Nat.exists_eq_add_of_le' hn
  rw [h.published_eq, List.replicate_succ', ← List.cons_append, List.getLast?_concat]

/-- Any point of the copy, and any number of publishes. -/
theorem exists_heldUp (n : Nat) {rest : Loads Found} (hrest : Copying 1 rest)
    (hsteps : ∀ d, ∃ k, Loads.Steps (image d 1 labSeed) k (pollApply 0) rest) :
    ∃ es q, HeldUp n rest ((Origin.gateway (some labSeed)).after es) q := by
  obtain ⟨d, hseed⟩ := (settled_seed labSeed).image_eq labSeed rfl
  have hinitial : (Origin.gateway (some labSeed)).initial.mem = image d 1 labSeed := hseed
  obtain ⟨k, hk⟩ := hsteps d
  rw [← hinitial] at hk
  obtain ⟨es, q, hq, hover, h⟩ := Control.run_copy rfl rfl hk hrest
  generalize hs : run Control.step (Origin.gateway (some labSeed)).initial es = s at h
  have hmagic : HasMagic s.mem := by
    rw [h]
    show HasMagic (Origin.gateway (some labSeed)).initial.mem
    rw [hinitial]
    exact hasMagic_image _ _ _
  obtain ⟨es', m, -, h'⟩ := Control.run_publishes (s := s) (by rw [h]; rfl) hmagic labNext n
  refine ⟨es ++ es', q, ?_⟩
  rw [Origin.after_append, Origin.after, hs, h', h]
  exact ⟨hq, hover, rfl, rfl, rfl, rfl⟩

/-- If the publishes bring the version back to where it was, the poll takes the present version for the
old one, and nothing is left to apply. -/
theorem exists_stale {n : Nat} (hn : 1 ≤ n) (hround : versionAt (n + 1) = 1) {rest : Loads Found}
    (hrest : Copying 1 rest) {policy : UInt8} {eps : List UpstreamEndpoint}
    (hfirst : ∀ d, ∃ k, Loads.Steps (image d 1 labSeed) k (pollApply 0) rest)
    (hsecond : ∀ d, ∃ k, Loads.Steps (image d 1 labNext) k rest (recheck 1 policy eps)) :
    ∃ (es : List Event) (s : Control) (a : Install),
      (Origin.gateway (some labSeed)).after es = s ∧ s.pub = none ∧ s.poll = none ∧
      s.published = labSeed :: List.replicate n labNext ∧ s.log = [a] ∧
      a.config = ⟨policyOf policy, eps⟩ ∧
      a.doneAt = s.published.length ∧ a.overlapped = false ∧
      s.table.policy = a.config.policy ∧ s.pollOnce = s := by
  obtain ⟨es, q, hheld⟩ := exists_heldUp n hrest hfirst
  obtain ⟨m, hinv⟩ := (Origin.gateway (some labSeed)).inv_after es
  generalize hs : (Origin.gateway (some labSeed)).after es = s at hheld hinv
  -- the rest of the copy is one of the last configuration
  obtain ⟨d, himage⟩ := hinv.settled.image_eq labNext (hheld.getLast_eq hn)
  obtain ⟨k, hk⟩ := hsecond d
  have hmem : s.mem = image d 1 labNext := by
    rw [hinv.mem_eq, Control.stored_of_none hheld.pub_eq, Store.applyAll_nil, himage,
      hheld.length_eq, hround]
  rw [← hmem, ← hheld.rest_eq] at hk
  obtain ⟨es', q', hq', hover, h'⟩ := Control.run_more hheld.pub_eq hheld.poll_eq hk
    (hheld.rest_eq ▸ hrest) (.recheck policy eps)
  have hafter : (Origin.gateway (some labSeed)).after (es ++ es') = { s with poll := some q' } := by
    rw [Origin.after_append, hs, h']
  -- the second load of the version
  obtain ⟨m', hinv'⟩ := (Origin.gateway (some labSeed)).inv_after (es ++ es')
  rw [hafter] at hinv'
  obtain ⟨a, hload, ⟨hconfig, hdone, hover'⟩, hstays⟩ := hinv'.install_copied hheld.pub_eq
    (List.ne_nil_of_length_eq_add_one hheld.length_eq) rfl
    (by rw [hq']; show _ = recheck (versionAt s.published.length) _ _; rw [hheld.length_eq, hround])
  refine ⟨es ++ es' ++ [.load], Control.step { s with poll := some q' } .load, a, ?_, ?_⟩
  · rw [Origin.after_append, hafter]
    rfl
  rw [hstays, hload]
  refine ⟨hheld.pub_eq, rfl, hheld.published_eq, ?_, hconfig, hdone, ?_, ?_, rfl⟩
  · show a :: s.log = [a]
    rw [hheld.log_eq]
  · rw [hover', hover, hheld.overlapped_eq]
  · rw [hconfig]
    rfl

/-- The versions come round after `2 ^ 32 - 1` publishes. -/
theorem versionAt_round : versionAt (4294967295 + 1) = 1 := by
  apply UInt32.toNat.inj
  rw [toNat_versionAt]
  rfl

/-- Counted from the return of the last successful poll, the publishes say nothing about those that went
by while it ran. -/
theorem not_converges_since_return :
    ¬∀ (o : Origin) (es : List Event), (o.after es).pub = none → (o.after es).poll = none →
      (o.after es).published ≠ [] →
      (∀ a, (o.after es).log.head? = some a →
        (o.after es).published.length - a.doneAt < 2 ^ 32 - 1) →
      ∀ u, (o.after es).published.getLast? = some u →
        (o.after es).pollOnce.table.policy = u.policy ∧
          (o.after es).pollOnce.table.nodes = u.endpoints := by
  intro hall
  obtain ⟨es, s, a, hs, hpub, hpoll, hpublished, hlog, hconfig, hdone, -, htable, hstays⟩ :=
    exists_stale (by decide) versionAt_round (.recheck (policyByte .mod) labSeed.endpoints)
      (fun d => steps_pollApply d 1 (by decide) (by decide) (by decide)) fun d => ⟨0, .refl _⟩
  have hlast : s.published.getLast? = some labNext := by
    rw [hpublished, List.getLast?_cons, List.getLast?_replicate]
    rfl
  have hclaim := hall (.gateway (some labSeed)) es
  rw [hs, hstays, htable, hconfig] at hclaim
  refine nomatch (hclaim hpub hpoll ?_ ?_ labNext hlast).1
  · rw [hpublished]
    exact List.cons_ne_nil _ _
  · rw [hlog]
    intro a' ha'
    cases ha'
    rw [hdone, Nat.sub_self]
    decide

/-- Two ways to install a mixture: a copy that overlaps the stores of a publish, with the version in
place all the time, and a copy that overlaps none but a whole round of publishes. -/
theorem mixtures_installed :
    (∃ a ∈ ((Origin.gateway (some labSeed)).after labTorn).log, a.doneAt = a.seenAt ∧
      a.config ∉ ((Origin.gateway (some labSeed)).after labTorn).published) ∧
    ∃ es, ∃ a ∈ ((Origin.gateway (some labSeed)).after es).log, a.overlapped = false ∧
      a.config ∉ ((Origin.gateway (some labSeed)).after es).published := by
  refine ⟨by decide +kernel, ?_⟩
  obtain ⟨es, s, a, rfl, -, -, hpublished, hlog, hconfig, -, hover, -, -⟩ :=
    exists_stale (by decide) versionAt_round (copying_copyCount 1 (policyByte .mod))
      (fun d => steps_policy d 1 (by decide) (by decide))
      fun d => steps_copyCount d 1 (u := labNext) (by decide) 1 (policyByte .mod)
  refine ⟨es, a, ?_, hover, ?_⟩
  · rw [hlog]
    exact List.mem_singleton_self a
  · rw [hpublished, hconfig]
    intro hmem
    rcases List.mem_cons.mp hmem with hseed | hnext
    · exact absurd hseed (by decide)
    · exact absurd (List.eq_of_mem_replicate hnext) (by decide)

end Shm

end VioletGateway
