import VioletGateway.Datapath.Manager

/-!
# From the flags to the datapath configuration

Model of `datapath_config_from_flags`. The flags have the types of gflags, wider than the fields of the
configuration that they end up in; the function checks every value before it narrows it, so a
configuration that comes out has the numbers that were asked for, and what is out of range ends the
process with the text of the first check that fails (`first_bad_flag_exits`).
-/

set_option autoImplicit false

namespace VioletGateway

/-- The flags, with their defaults. -/
structure DatapathFlags where
  datapathMode : String := "pipeline"
  datapathPortMask : UInt64 := 0
  datapathWorkerPort : UInt32 := 0
  ioRingSize : UInt32 := 0
  ioRxLcore : Bool := true
  ioTxLcore : Bool := true
  ioTxRingFullSleepUs : Int32 := 10
  rtcSteer : String := "auto"
  rtcWorkers : UInt32 := 1
  rtcDistRingSize : UInt32 := 0

/-- `DatapathConfig` with the field that `VioletGW::init` reads. -/
structure FlagConfig extends DatapathConfig where
  workerPort : UInt16

/-- `parse_datapath_mode`. -/
def parseDatapathMode (s : String) : Option DatapathMode :=
  if s = "pipeline" then some .pipeline
  else if s = "rtc" then some .rtc
  else none

/-- `parse_rtc_steer`. -/
def parseRtcSteer (s : String) : Option RtcSteer :=
  if s = "auto" then some .auto
  else if s = "hw_rss" then some .hwRss
  else if s = "soft_rr" then some .softRr
  else none

/-- Why a flag is refused. -/
inductive FlagError
  | badDatapathMode (value : String)
  | portMaskExceeds (value : UInt64)
  | exceedsUint16 (name : String) (value : UInt32)
  | negativeSleep (value : Int32)
  | badRtcSteer (value : String)

/-- The text that `rte_exit` prints. -/
def FlagError.text : FlagError → String
  | .badDatapathMode value => "bad --datapath_mode=" ++ value ++ "\n"
  | .portMaskExceeds value =>
      "--datapath_port_mask=" ++ toString value.toNat ++ " exceeds the maximum supported value " ++
        "(4294967295)\n"
  | .exceedsUint16 name value =>
      "--" ++ name ++ "=" ++ toString value.toNat ++ " exceeds the maximum supported value (65535)\n"
  | .negativeSleep value =>
      "--io_tx_ring_full_sleep_us=" ++ toString value.toInt ++ " must not be negative\n"
  | .badRtcSteer value => "bad --rtc_steer=" ++ value ++ "\n"

/-- A check: the process exits if `bad` holds. -/
def exitIf (bad : Prop) [Decidable bad] (e : FlagError) : Except FlagError Unit :=
  if bad then .error e else .ok ()

/-- `check_uint16_flag`. -/
def checkUint16Flag (name : String) (value : UInt32) : Except FlagError Unit :=
  exitIf (65535 < value) (.exceedsUint16 name value)

/-- A parsed value, or the exit for a text that is not one. -/
def orExit {α : Type} (value : Option α) (e : FlagError) : Except FlagError α :=
  match value with
  | some a => .ok a
  | none => .error e

/-- `datapath_config_from_flags`. -/
def datapathConfigFromFlags (f : DatapathFlags) : Except FlagError FlagConfig := do
  let mode ← orExit (parseDatapathMode f.datapathMode) (.badDatapathMode f.datapathMode)
  exitIf (4294967295 < f.datapathPortMask) (.portMaskExceeds f.datapathPortMask)
  checkUint16Flag "datapath_worker_port" f.datapathWorkerPort
  checkUint16Flag "io_ring_size" f.ioRingSize
  checkUint16Flag "rtc_dist_ring_size" f.rtcDistRingSize
  exitIf (f.ioTxRingFullSleepUs < 0) (.negativeSleep f.ioTxRingFullSleepUs)
  let portMask :=
    if f.datapathPortMask ≠ 0 then f.datapathPortMask.toUInt32 else datapathConfigDefaults.portMask
  let workerPort := f.datapathWorkerPort.toUInt16
  match mode with
  -- the flags for RTC only are not looked at
  | .pipeline =>
      let params : PipelineParams :=
        { ringSize := f.ioRingSize.toUInt16
          launchRxLcore := f.ioRxLcore
          launchTxLcore := f.ioTxLcore
          txRingFullSleepUs := f.ioTxRingFullSleepUs.toInt }
      return { portMask, workerPort, u := .pipeline params }
  | .rtc =>
      let steer ← orExit (parseRtcSteer f.rtcSteer) (.badRtcSteer f.rtcSteer)
      checkUint16Flag "rtc_workers" f.rtcWorkers
      let workers := f.rtcWorkers.toUInt16
      let params : RtcParams :=
        { steer
          workers := if workers = 0 then 1 else workers
          distRingSize := f.rtcDistRingSize.toUInt16 }
      return { portMask, workerPort, u := .rtc params }

/-! ## Specification -/

/-- What is wrong with a flag, if something is. -/
def problemIf (bad : Prop) [Decidable bad] (e : FlagError) : List FlagError := if bad then [e] else []

namespace DatapathFlags

/-- What is wrong with the flags that both modes look at, in the order of the checks. -/
def commonProblems (f : DatapathFlags) : List FlagError :=
  problemIf (parseDatapathMode f.datapathMode = none) (.badDatapathMode f.datapathMode) ++
    problemIf (4294967295 < f.datapathPortMask) (.portMaskExceeds f.datapathPortMask) ++
    problemIf (65535 < f.datapathWorkerPort)
      (.exceedsUint16 "datapath_worker_port" f.datapathWorkerPort) ++
    problemIf (65535 < f.ioRingSize) (.exceedsUint16 "io_ring_size" f.ioRingSize) ++
    problemIf (65535 < f.rtcDistRingSize) (.exceedsUint16 "rtc_dist_ring_size" f.rtcDistRingSize) ++
    problemIf (f.ioTxRingFullSleepUs < 0) (.negativeSleep f.ioTxRingFullSleepUs)

/-- What is wrong with the flags that only the RTC mode looks at. -/
def rtcProblems (f : DatapathFlags) : List FlagError :=
  problemIf (parseRtcSteer f.rtcSteer = none) (.badRtcSteer f.rtcSteer) ++
    problemIf (65535 < f.rtcWorkers) (.exceedsUint16 "rtc_workers" f.rtcWorkers)

/-- Everything that is wrong. -/
def problems (f : DatapathFlags) : List FlagError :=
  f.commonProblems ++ if f.datapathMode = "rtc" then f.rtcProblems else []

end DatapathFlags

/-- The configuration has the numbers of the flags, and the numbers of queues, for which there are no
flags, are zero. -/
structure FlagConfig.Matches (f : DatapathFlags) (c : FlagConfig) : Prop where
  portMask : c.portMask.toNat = if f.datapathPortMask = 0 then 1 else f.datapathPortMask.toNat
  workerPort : c.workerPort.toNat = f.datapathWorkerPort.toNat
  pipeline : f.datapathMode = "pipeline" → ∃ params, c.u = .pipeline params ∧
    params.ringSize.toNat = f.ioRingSize.toNat ∧ params.launchRxLcore = f.ioRxLcore ∧
    params.launchTxLcore = f.ioTxLcore ∧ params.txRingFullSleepUs = f.ioTxRingFullSleepUs.toInt ∧
    0 ≤ params.txRingFullSleepUs
  rtc : f.datapathMode = "rtc" → ∃ params, c.u = .rtc params ∧
    parseRtcSteer f.rtcSteer = some params.steer ∧ params.workers.toNat = max 1 f.rtcWorkers.toNat ∧
    params.distRingSize.toNat = f.rtcDistRingSize.toNat ∧ params.rxQueues = 0 ∧ params.txQueues = 0

/-- What comes of a list of problems: the first of them, or a configuration as wanted. -/
def Settles (problems : List FlagError) (good : FlagConfig → Prop)
    (r : Except FlagError FlagConfig) : Prop :=
  match problems with
  | [] => ∃ c, r = .ok c ∧ good c
  | e :: _ => r = .error e

section Checks

variable {problems : List FlagError} {good : FlagConfig → Prop} {e : FlagError}

/-- A check puts its problem before those of the checks after it. -/
theorem settles_exitIf {bad : Prop} [Decidable bad] {k : Unit → Except FlagError FlagConfig}
    (h : ¬bad → Settles problems good (k ())) :
    Settles (problemIf bad e ++ problems) good (exitIf bad e >>= k) := by
  rw [problemIf, exitIf]
  split_ifs with hbad
  · rfl
  · exact h hbad

theorem settles_orExit {α : Type} {value : Option α} {k : α → Except FlagError FlagConfig}
    [Decidable (value = none)] (h : ∀ a, value = some a → Settles problems good (k a)) :
    Settles (problemIf (value = none) e ++ problems) good (orExit value e >>= k) := by
  cases value with
  | none =>
      rw [problemIf, if_pos rfl]
      rfl
  | some a =>
      rw [problemIf, if_neg (Option.some_ne_none a)]
      exact h a rfl

end Checks

/-! ## Narrowing -/

theorem toNat_toUInt16_of_le {value : UInt32} (h : ¬65535 < value) :
    value.toUInt16.toNat = value.toNat := by
  have hle : ¬65535 < value.toNat := fun hlt => h (UInt32.lt_iff_toNat_lt.mpr hlt)
  rw [UInt32.toNat_toUInt16]
  exact Nat.mod_eq_of_lt (by omega)

theorem toNat_toUInt32_of_le {value : UInt64} (h : ¬4294967295 < value) :
    value.toUInt32.toNat = value.toNat := by
  have hle : ¬4294967295 < value.toNat := fun hlt => h (UInt64.lt_iff_toNat_lt.mpr hlt)
  rw [UInt64.toNat_toUInt32]
  exact Nat.mod_eq_of_lt (by omega)

/-- No workers count as one. -/
theorem toNat_workers {value : UInt32} (h : ¬65535 < value) :
    (if value.toUInt16 = 0 then (1 : UInt16) else value.toUInt16).toNat = max 1 value.toNat := by
  have hnarrow := toNat_toUInt16_of_le h
  split_ifs with hzero
  · rw [hzero] at hnarrow
    rw [← hnarrow]
    rfl
  · have hpos : value.toUInt16.toNat ≠ 0 := fun hz => hzero (UInt16.toNat_inj.mp hz)
    omega

theorem parseDatapathMode_pipeline {s : String} (h : parseDatapathMode s = some .pipeline) :
    s = "pipeline" := by
  rw [parseDatapathMode] at h
  split_ifs at h with hpipeline hrtc
  · exact hpipeline
  · cases h

theorem parseDatapathMode_rtc {s : String} (h : parseDatapathMode s = some .rtc) : s = "rtc" := by
  rw [parseDatapathMode] at h
  split_ifs at h with hpipeline hrtc
  · cases h
  · exact hrtc

/-- The process ends at the first flag, in the order of the checks, whose value is not allowed; and if
there is none, the configuration has the numbers of the flags, narrowed without loss. -/
theorem datapathConfigFromFlags_settles (f : DatapathFlags) :
    Settles f.problems (FlagConfig.Matches f) (datapathConfigFromFlags f) := by
  rw [DatapathFlags.problems, DatapathFlags.commonProblems, datapathConfigFromFlags]
  simp only [List.append_assoc, checkUint16Flag]
  refine settles_orExit fun mode hmode => ?_
  refine settles_exitIf fun hmask => ?_
  refine settles_exitIf fun hworkerPort => ?_
  refine settles_exitIf fun hringSize => ?_
  refine settles_exitIf fun hdist => ?_
  refine settles_exitIf fun hsleep => ?_
  -- what both modes set
  have hportMask : (if f.datapathPortMask ≠ 0 then f.datapathPortMask.toUInt32
      else datapathConfigDefaults.portMask).toNat =
        if f.datapathPortMask = 0 then 1 else f.datapathPortMask.toNat := by
    by_cases hzero : f.datapathPortMask = 0
    · rw [if_pos hzero, if_neg (not_not_intro hzero)]
      rfl
    · rw [if_neg hzero, if_pos hzero]
      exact toNat_toUInt32_of_le hmask
  cases mode with
  | pipeline =>
      have hname := parseDatapathMode_pipeline hmode
      have hnot : f.datapathMode ≠ "rtc" := by
        rw [hname]
        decide
      rw [if_neg hnot]
      refine ⟨_, rfl, hportMask, toNat_toUInt16_of_le hworkerPort, fun _ => ?_, fun h => absurd h hnot⟩
      refine ⟨_, rfl, toNat_toUInt16_of_le hringSize, rfl, rfl, rfl, ?_⟩
      exact Int32.le_iff_toInt_le.mp (Int32.not_lt.mp hsleep)
  | rtc =>
      have hname := parseDatapathMode_rtc hmode
      have hnot : f.datapathMode ≠ "pipeline" := by
        rw [hname]
        decide
      rw [if_pos hname, DatapathFlags.rtcProblems, ← List.append_nil (problemIf (65535 < _) _)]
      refine settles_orExit fun steer hsteer => ?_
      refine settles_exitIf fun hworkers => ?_
      refine ⟨_, rfl, hportMask, toNat_toUInt16_of_le hworkerPort, fun h => absurd h hnot, fun _ => ?_⟩
      exact ⟨_, rfl, hsteer, toNat_workers hworkers, toNat_toUInt16_of_le hdist, rfl, rfl⟩

/-- The numbers determine the configuration. -/
theorem FlagConfig.Matches.unique {f : DatapathFlags} {c c' : FlagConfig} (h : c.Matches f)
    (h' : c'.Matches f) (hmode : f.datapathMode = "pipeline" ∨ f.datapathMode = "rtc") : c = c' := by
  have hmask : c.portMask = c'.portMask := UInt32.toNat_inj.mp (h.portMask.trans h'.portMask.symm)
  have hport : c.workerPort = c'.workerPort :=
    UInt16.toNat_inj.mp (h.workerPort.trans h'.workerPort.symm)
  have hparams : c.u = c'.u := by
    rcases hmode with hpipeline | hrtc
    · obtain ⟨⟨size, rx, tx, sleep⟩, hu, hsize, hrx, htx, hsleep, -⟩ := h.pipeline hpipeline
      obtain ⟨⟨size', rx', tx', sleep'⟩, hu', hsize', hrx', htx', hsleep', -⟩ := h'.pipeline hpipeline
      obtain rfl : size = size' := UInt16.toNat_inj.mp (hsize.trans hsize'.symm)
      dsimp only at hrx hrx' htx htx' hsleep hsleep'
      rw [hu, hu', hrx, hrx', htx, htx', hsleep, hsleep']
    · obtain ⟨⟨steer, workers, rxQueues, txQueues, dist⟩, hu, hsteer, hworkers, hdist, hrxQueues,
        htxQueues⟩ := h.rtc hrtc
      obtain ⟨⟨steer', workers', rxQueues', txQueues', dist'⟩, hu', hsteer', hworkers', hdist',
        hrxQueues', htxQueues'⟩ := h'.rtc hrtc
      obtain rfl : workers = workers' := UInt16.toNat_inj.mp (hworkers.trans hworkers'.symm)
      obtain rfl : steer = steer' := Option.some.inj (hsteer.symm.trans hsteer')
      obtain rfl : dist = dist' := UInt16.toNat_inj.mp (hdist.trans hdist'.symm)
      dsimp only at hrxQueues hrxQueues' htxQueues htxQueues'
      rw [hu, hu', hrxQueues, hrxQueues', htxQueues, htxQueues']
  obtain ⟨⟨mask, u⟩, port⟩ := c
  obtain ⟨⟨mask', u'⟩, port'⟩ := c'
  dsimp only at hmask hport hparams
  rw [hmask, hport, hparams]

theorem problems_of_ok {f : DatapathFlags} {c : FlagConfig} (h : datapathConfigFromFlags f = .ok c) :
    f.problems = [] ∧ c.Matches f := by
  have hsettles := datapathConfigFromFlags_settles f
  rw [h] at hsettles
  cases hproblems : f.problems with
  | nil =>
      rw [hproblems] at hsettles
      obtain ⟨c', hc', hmatches⟩ := hsettles
      obtain rfl := Except.ok.inj hc'
      exact ⟨rfl, hmatches⟩
  | cons e problems =>
      rw [hproblems] at hsettles
      cases hsettles

theorem mode_of_problems {f : DatapathFlags} (h : f.problems = []) :
    f.datapathMode = "pipeline" ∨ f.datapathMode = "rtc" := by
  have hmode : problemIf (parseDatapathMode f.datapathMode = none)
      (.badDatapathMode f.datapathMode) = [] := by
    rw [DatapathFlags.problems, DatapathFlags.commonProblems] at h
    simp only [List.append_eq_nil_iff] at h
    exact h.1.1.1.1.1.1
  rw [problemIf] at hmode
  split_ifs at hmode with hnone
  rw [parseDatapathMode] at hnone
  split_ifs at hnone with hpipeline hrtc
  · exact .inl hpipeline
  · exact .inr hrtc
  · exact absurd rfl hnone

/-- The process ends with the first problem, in the order of the checks; and a configuration comes out if
and only if there is none and it has the numbers of the flags, narrowed without loss. -/
theorem first_bad_flag_exits (f : DatapathFlags) :
    (∀ e, datapathConfigFromFlags f = .error e ↔ f.problems.head? = some e) ∧
      ∀ c, datapathConfigFromFlags f = .ok c ↔ f.problems = [] ∧ c.Matches f := by
  have hsettles := datapathConfigFromFlags_settles f
  constructor
  · intro e
    cases hproblems : f.problems with
    | nil =>
        rw [hproblems] at hsettles
        obtain ⟨c, hc, -⟩ := hsettles
        simp [hc]
    | cons e' problems =>
        rw [hproblems] at hsettles
        rw [show datapathConfigFromFlags f = .error e' from hsettles]
        simp
  · intro c
    refine ⟨problems_of_ok, ?_⟩
    rintro ⟨hnone, hmatches⟩
    rw [hnone] at hsettles
    obtain ⟨c', hc', hmatches'⟩ := hsettles
    rw [hc', hmatches.unique hmatches' (mode_of_problems hnone)]

/-- In pipeline mode the number of RTC workers is not looked at, in RTC mode it is. -/
example :
    (DatapathFlags.problems { rtcWorkers := 70000 }).map FlagError.text = [] ∧
      (DatapathFlags.problems { datapathMode := "rtc", rtcWorkers := 70000 }).map FlagError.text =
        ["--rtc_workers=70000 exceeds the maximum supported value (65535)\n"] := by
  decide +kernel

end VioletGateway
