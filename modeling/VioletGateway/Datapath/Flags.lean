import VioletGateway.Support.Deal

/-!
# The flags on the command line

Model of `parse_vgw_command_line_flags` up to the call of gflags: the command line is split into the
arguments for gflags and those for EAL. The split is an order-preserving partition, and which side an
argument goes to can be told from its position alone. A value is taken whatever it looks like: a flag
that is the value of another takes none itself, and a `--` that is a value separates nothing.
-/

set_option autoImplicit false

namespace VioletGateway

open Support

namespace Flags

/-! ## The split -/

/-- An argument is the list of its characters, one for each byte. -/
abbrev Arg := List Char

/-- `has_prefix`. -/
def hasPrefix (value : Arg) (start : Arg) : Bool :=
  decide (start.length ≤ value.length) && decide (value.take start.length = start)

/-- `is_vgw_flag`. -/
@[irreducible] def isVgwFlag (arg : Arg) : Bool :=
  -- the tests are unfolded only on a given argument
  hasPrefix arg "--datapath_".toList || hasPrefix arg "--io_".toList ||
    hasPrefix arg "--noio_".toList || hasPrefix arg "--rtc_".toList ||
    hasPrefix arg "--flagfile".toList || decide (arg = "--help".toList) ||
    decide (arg = "--helpfull".toList) || decide (arg = "--helpshort".toList) ||
    decide (arg = "--helpxml".toList) || decide (arg = "--version".toList)

/-- `arg.substr(0, arg.find('='))`. -/
def flagName (arg : Arg) : Arg :=
  match arg.idxOf? '=' with
  | some valueSeparator => arg.take valueSeparator
  -- `npos`: the whole argument
  | none => arg

/-- `flag_requires_value`. -/
@[irreducible] def flagRequiresValue (arg : Arg) : Bool :=
  let name := flagName arg
  decide (name = "--datapath_mode".toList) || decide (name = "--datapath_port_mask".toList) ||
    decide (name = "--datapath_worker_port".toList) || decide (name = "--io_ring_size".toList) ||
    decide (name = "--io_tx_ring_full_sleep_us".toList) || decide (name = "--rtc_steer".toList) ||
    decide (name = "--rtc_workers".toList) || decide (name = "--rtc_dist_ring_size".toList) ||
    decide (name = "--flagfile".toList)

/-- The argument `--`. -/
@[irreducible] def dashes : Arg := "--".toList

/-- The two vectors that are filled. -/
structure ArgVectors where
  vgwArgv : List Arg
  ealArgv : List Arg
deriving DecidableEq

/-- The loop of `parse_vgw_command_line_flags`, with the arguments from the index on to go. -/
def splitArgs : List Arg → ArgVectors → ArgVectors
  | [], out => out
  | arg :: rest, out =>
    if arg = dashes then
      { out with ealArgv := out.ealArgv ++ arg :: rest }
    else if isVgwFlag arg = false then
      splitArgs rest { out with ealArgv := out.ealArgv ++ [arg] }
    else if flagRequiresValue arg ∧ arg.idxOf? '=' = none then
      match rest with
      | value :: rest => splitArgs rest { out with vgwArgv := out.vgwArgv ++ [arg, value] }
      | [] => { out with vgwArgv := out.vgwArgv ++ [arg] }
    else
      splitArgs rest { out with vgwArgv := out.vgwArgv ++ [arg] }

section Turns

variable {arg : Arg} (rest : List Arg) (out : ArgVectors)

theorem splitArgs_separator :
    splitArgs (dashes :: rest) out =
      { out with ealArgv := out.ealArgv ++ dashes :: rest } := by
  rw [splitArgs.eq_def]
  exact if_pos rfl

theorem splitArgs_other (hdash : arg ≠ dashes) (hflag : isVgwFlag arg = false) :
    splitArgs (arg :: rest) out =
      splitArgs rest { out with ealArgv := out.ealArgv ++ [arg] } := by
  rw [splitArgs.eq_def]
  exact (if_neg hdash).trans (if_pos hflag)

theorem splitArgs_flag (hdash : arg ≠ dashes) (hflag : ¬isVgwFlag arg = false)
    (hvalue : ¬(flagRequiresValue arg ∧ arg.idxOf? '=' = none)) :
    splitArgs (arg :: rest) out =
      splitArgs rest { out with vgwArgv := out.vgwArgv ++ [arg] } := by
  rw [splitArgs.eq_def]
  exact (if_neg hdash).trans ((if_neg hflag).trans (if_neg hvalue))

theorem splitArgs_value (value : Arg) (hdash : arg ≠ dashes) (hflag : ¬isVgwFlag arg = false)
    (hvalue : flagRequiresValue arg ∧ arg.idxOf? '=' = none) :
    splitArgs (arg :: value :: rest) out =
      splitArgs rest { out with vgwArgv := out.vgwArgv ++ [arg, value] } := by
  rw [splitArgs, if_neg hdash, if_neg hflag, if_pos hvalue]

end Turns

/-- `parse_vgw_command_line_flags`: the vector that goes to gflags, and `eal_argv`. -/
def parseVgwCommandLineFlags (argv : List Arg) (hargc : 1 ≤ argv.length) : ArgVectors :=
  let argv0 := argv.get ⟨0, hargc⟩
  splitArgs (argv.drop 1) ⟨[argv0], [argv0]⟩

/-! ## Flags and values -/

/-- A flag of the gateway that takes the next argument as its value. -/
def takesValue (arg : Arg) : Bool :=
  isVgwFlag arg && flagRequiresValue arg && decide (arg.idxOf? '=' = none)

section Positions

variable (argv : List Arg)

/-- The argument right before the position `i` is a flag that takes a value. -/
def followsTaker (i : Nat) : Bool := decide (1 < i) && argv[i - 1]?.any takesValue

/-- The argument at a position is the value of a flag: the argument before it is a flag that takes one,
and is not a value itself. -/
def isValue : Nat → Bool
  | 0 => false
  | i + 1 => followsTaker argv (i + 1) && !isValue i

/-- The argument at the position `i` is a `--` and not a value. -/
def isSeparator (i : Nat) : Bool :=
  decide (0 < i) && decide (argv[i]? = some dashes) && !isValue argv i

/-- The argument at the position `i` is for gflags: it stands before the first separator, and it is a
flag of the gateway or the value of one. -/
def OnVgwSide (i : Nat) : Prop :=
  (∀ j ≤ i, isSeparator argv j = false) ∧ (argv[i]?.any isVgwFlag ∨ isValue argv i)

end Positions

/-! ## The loop -/

variable {argv : List Arg} {i : Nat} {arg : Arg}

/-- The loop is at the position `i`: the argument there is not a value, and no separator has been
met. -/
structure AtHead (argv : List Arg) (i : Nat) : Prop where
  pos : 0 < i
  not_value : isValue argv i = false
  no_separator : ∀ j < i, isSeparator argv j = false

/-- The loop starts after the name of the program. -/
theorem atHead_one (argv : List Arg) : AtHead argv 1 := by
  refine ⟨Nat.one_pos, rfl, ?_⟩
  intro j hj
  have hzero : j = 0 := by omega
  rw [hzero]
  rfl

theorem isValue_succ (argv : List Arg) (i : Nat) :
    isValue argv (i + 1) = (followsTaker argv (i + 1) && !isValue argv i) := rfl

namespace AtHead

variable (h : AtHead argv i) (harg : argv[i]? = some arg)
include h harg

theorem isSeparator_eq : isSeparator argv i = decide (arg = dashes) := by
  rw [isSeparator, h.not_value, harg]
  simp [h.pos]

theorem isValue_next : isValue argv (i + 1) = takesValue arg := by
  rw [isValue_succ, h.not_value, followsTaker, Nat.add_sub_cancel, harg]
  simp [h.pos]

variable (hdash : arg ≠ dashes)
include hdash

theorem no_separator_le : ∀ j ≤ i, isSeparator argv j = false := by
  intro j hj
  rcases Nat.lt_or_eq_of_le hj with hlt | rfl
  · exact h.no_separator j hlt
  · rw [h.isSeparator_eq harg]
    exact decide_eq_false hdash

/-- An argument that takes no value is passed over by itself. -/
theorem succ (htakes : takesValue arg = false) : AtHead argv (i + 1) := by
  refine ⟨Nat.succ_pos i, ?_, ?_⟩
  · rw [h.isValue_next harg, htakes]
  · intro j hj
    exact h.no_separator_le harg hdash j (Nat.le_of_lt_succ hj)

/-- The value of a flag does not separate. -/
theorem no_separator_value (htakes : takesValue arg = true) :
    ∀ j ≤ i + 1, isSeparator argv j = false := by
  intro j hj
  rcases Nat.lt_or_eq_of_le hj with hlt | rfl
  · exact h.no_separator_le harg hdash j (Nat.le_of_lt_succ hlt)
  · rw [isSeparator, h.isValue_next harg, htakes]
    simp

/-- A flag is passed over together with its value. -/
theorem skip (htakes : takesValue arg = true) : AtHead argv (i + 1 + 1) := by
  refine ⟨Nat.succ_pos _, ?_, ?_⟩
  · rw [isValue_succ, h.isValue_next harg, htakes]
    simp
  · intro j hj
    exact h.no_separator_value harg hdash htakes j (Nat.le_of_lt_succ hj)

theorem onVgwSide_iff : OnVgwSide argv i ↔ isVgwFlag arg = true := by
  rw [OnVgwSide, harg, h.not_value]
  constructor
  · rintro ⟨-, hflag⟩
    simpa using hflag
  · intro hflag
    exact ⟨h.no_separator_le harg hdash, .inl hflag⟩

theorem onVgwSide_value (htakes : takesValue arg = true) : OnVgwSide argv (i + 1) := by
  refine ⟨h.no_separator_value harg hdash htakes, .inr ?_⟩
  rw [h.isValue_next harg, htakes]

end AtHead

/-- From the separator on, nothing is for gflags. -/
theorem not_onVgwSide_of_separator (h : isSeparator argv i = true) {j : Nat} (hj : i ≤ j) :
    ¬OnVgwSide argv j := by
  rintro ⟨hnone, -⟩
  exact Bool.noConfusion (h.symm.trans (hnone i hj))

theorem next_of_drop {rest : List Arg} (h : argv.drop i = arg :: rest) :
    argv[i]? = some arg ∧ argv.drop (i + 1) = rest := by
  constructor
  · rw [← List.head?_drop, h, List.head?_cons]
  · rw [← List.tail_drop, h, List.tail_cons]

theorem takesValue_iff : takesValue arg = true ↔
    isVgwFlag arg = true ∧ flagRequiresValue arg = true ∧ arg.idxOf? '=' = none := by
  simp [takesValue, and_assoc]

/-- What the loop does from the position `i` on: each argument is appended to the vector of its
side. -/
theorem splitArgs_dealt {rest : List Arg} (out : ArgVectors) (hrest : argv.drop i = rest)
    (h : AtHead argv i) :
    ∃ vgw eal, splitArgs rest out = ⟨out.vgwArgv ++ vgw, out.ealArgv ++ eal⟩ ∧
      DealtBy (OnVgwSide argv) i rest vgw eal := by
  -- the induction follows the loop, which takes one argument or two at each turn
  induction rest, out using splitArgs.induct generalizing i with
  | case1 out =>
      refine ⟨[], [], ?_, .nil⟩
      rw [splitArgs, List.append_nil, List.append_nil]
  | case2 rest out =>
      obtain ⟨harg, -⟩ := next_of_drop hrest
      have hsep : isSeparator argv i = true := (h.isSeparator_eq harg).trans (decide_eq_true rfl)
      refine ⟨[], dashes :: rest, ?_, .all_right _ fun j hj => ?_⟩
      · rw [splitArgs_separator, List.append_nil]
      · exact not_onVgwSide_of_separator hsep hj
  | case3 arg rest out hdash hflag ih =>
      obtain ⟨harg, hnext⟩ := next_of_drop hrest
      have htakes : takesValue arg = false := by rw [takesValue, hflag, Bool.false_and, Bool.false_and]
      have hside : ¬OnVgwSide argv i := by
        rw [h.onVgwSide_iff harg hdash, hflag]
        exact Bool.noConfusion
      obtain ⟨vgw, eal, hsplit, hdealt⟩ := ih hnext (h.succ harg hdash htakes)
      refine ⟨vgw, arg :: eal, ?_, .right hside hdealt⟩
      rw [splitArgs_other rest out hdash hflag, hsplit, List.append_assoc, List.singleton_append]
  | case4 arg out hdash hflag hvalue value rest ih =>
      obtain ⟨harg, hnext⟩ := next_of_drop hrest
      obtain ⟨-, hafter⟩ := next_of_drop hnext
      have htakes : takesValue arg = true := takesValue_iff.mpr ⟨eq_true_of_ne_false hflag, hvalue⟩
      have hside := (h.onVgwSide_iff harg hdash).mpr (eq_true_of_ne_false hflag)
      have hsideValue := h.onVgwSide_value harg hdash htakes
      obtain ⟨vgw, eal, hsplit, hdealt⟩ := ih hafter (h.skip harg hdash htakes)
      refine ⟨arg :: value :: vgw, eal, ?_, .left hside (.left hsideValue hdealt)⟩
      rw [splitArgs_value rest out value hdash hflag hvalue, hsplit, List.append_assoc]
      rfl
  | case5 arg out hdash hflag hvalue =>
      -- the last argument: its value is missing
      obtain ⟨harg, -⟩ := next_of_drop hrest
      have hside := (h.onVgwSide_iff harg hdash).mpr (eq_true_of_ne_false hflag)
      refine ⟨[arg], [], ?_, .left hside .nil⟩
      rw [splitArgs, if_neg hdash, if_neg hflag, if_pos hvalue, List.append_nil]
  | case6 arg rest out hdash hflag hvalue ih =>
      obtain ⟨harg, hnext⟩ := next_of_drop hrest
      have htakes : takesValue arg = false := by
        apply eq_false_of_ne_true
        intro htakes
        exact hvalue (takesValue_iff.mp htakes).2
      have hside := (h.onVgwSide_iff harg hdash).mpr (eq_true_of_ne_false hflag)
      obtain ⟨vgw, eal, hsplit, hdealt⟩ := ih hnext (h.succ harg hdash htakes)
      refine ⟨arg :: vgw, eal, ?_, .left hside hdealt⟩
      rw [splitArgs_flag rest out hdash hflag hvalue, hsplit, List.append_assoc, List.singleton_append]

/-! ## The partition -/

/-- The command line is partitioned, and the order is kept: both vectors start with the name of the
program, and the other arguments are an interleaving of the rest of the two. An argument is for gflags
exactly when it stands before the first separator, a `--` that is not the value of a flag, and is a flag
of the gateway or the value of one; all others are for EAL. -/
theorem parse_partitions (argv : List Arg) (hargc : 1 ≤ argv.length) :
    ∃ vgw eal,
      parseVgwCommandLineFlags argv hargc =
        ⟨argv.get ⟨0, hargc⟩ :: vgw, argv.get ⟨0, hargc⟩ :: eal⟩ ∧
      Interleaves vgw eal (argv.drop 1) ∧
      DealtBy (OnVgwSide argv) 1 (argv.drop 1) vgw eal := by
  have hloop := splitArgs_dealt ⟨[argv.get ⟨0, hargc⟩], [argv.get ⟨0, hargc⟩]⟩ rfl (atHead_one argv)
  obtain ⟨vgw, eal, hsplit, hdealt⟩ := hloop
  exact ⟨vgw, eal, hsplit, hdealt.interleaves, hdealt⟩

/-- A command line with arguments of both kinds, and a `--` that is a value. -/
def mixedLine : List Arg :=
  ["vgw".toList, "--rtc_steer".toList, dashes, "-l".toList, "--io_rx_lcore".toList,
    dashes, "--rtc_workers=2".toList]

theorem mixedLine_partitions :
    DealtBy (OnVgwSide mixedLine) 1 (mixedLine.drop 1)
      ["--rtc_steer".toList, dashes, "--io_rx_lcore".toList]
      ["-l".toList, dashes, "--rtc_workers=2".toList] := by
  have hsplit : parseVgwCommandLineFlags mixedLine (by decide) =
      ⟨["vgw".toList, "--rtc_steer".toList, dashes, "--io_rx_lcore".toList],
        ["vgw".toList, "-l".toList, dashes, "--rtc_workers=2".toList]⟩ := by decide +kernel
  obtain ⟨vgw, eal, hvectors, -, hdealt⟩ := parse_partitions mixedLine (by decide)
  have hvgw := congrArg (fun out => out.vgwArgv.tail) (hvectors.symm.trans hsplit)
  have heal := congrArg (fun out => out.ealArgv.tail) (hvectors.symm.trans hsplit)
  simp only [List.tail_cons] at hvgw heal
  rwa [hvgw, heal] at hdealt

/-- A command line on which the value of a flag looks like a flag that takes a value. -/
def flagValueLine : List Arg :=
  ["vgw".toList, "--rtc_workers".toList, "--rtc_workers".toList, "4".toList]

/-- The last argument directly follows a flag that takes a value, and yet is for EAL. -/
theorem follows_taker_not_vgw :
    parseVgwCommandLineFlags flagValueLine (by decide) =
      ⟨["vgw".toList, "--rtc_workers".toList, "--rtc_workers".toList], ["vgw".toList, "4".toList]⟩ ∧
    dashes ∉ flagValueLine ∧
    ¬∃ vgw eal,
      parseVgwCommandLineFlags flagValueLine (by decide) = ⟨"vgw".toList :: vgw, "vgw".toList :: eal⟩ ∧
      DealtBy (fun i => flagValueLine[i]?.any isVgwFlag ∨ followsTaker flagValueLine i) 1
        (flagValueLine.drop 1) vgw eal := by
  have hsplit : parseVgwCommandLineFlags flagValueLine (by decide) =
      ⟨["vgw".toList, "--rtc_workers".toList, "--rtc_workers".toList],
        ["vgw".toList, "4".toList]⟩ := by decide +kernel
  have hside : ∀ j < 4, 1 ≤ j →
      flagValueLine[j]?.any isVgwFlag ∨ followsTaker flagValueLine j := by decide +kernel
  refine ⟨hsplit, by decide +kernel, ?_⟩
  rintro ⟨vgw, eal, hvectors, hdealt⟩
  have hnone : eal = [] := hdealt.eq_nil_of_forall fun j hj hlt => hside j hlt hj
  have heal : ["vgw".toList, "4".toList] = "vgw".toList :: eal :=
    congrArg ArgVectors.ealArgv (hsplit.symm.trans hvectors)
  rw [hnone] at heal
  exact absurd (congrArg List.length heal) (by decide)

end Flags

end VioletGateway
