import Mathlib.Data.List.TakeWhile
import VioletGateway.Datapath.Flags

/-!
# The separator before the arguments of EAL

Between the flags of the gateway and the arguments of EAL the command line may have a `--`. The loop
hands it on together with what follows it. For EAL, as for `getopt`, it is the end of the options, so
that nothing of what follows is interpreted.

`rte_eal_init` is a parameter: the list of the arguments that it interprets of the vector it is given.
-/

set_option autoImplicit false

namespace VioletGateway

namespace Flags

/-- Flags of the gateway, each with its value if it takes one. -/
inductive CompleteFlags : List Arg → Prop
  | nil : CompleteFlags []
  | flag {arg : Arg} {v : List Arg} (hflag : isVgwFlag arg = true) (htakes : takesValue arg = false)
      (hv : CompleteFlags v) : CompleteFlags (arg :: v)
  | value {arg value : Arg} {v : List Arg} (htakes : takesValue arg = true)
      (hv : CompleteFlags v) : CompleteFlags (arg :: value :: v)

/-- The vector that `main` hands to `rte_eal_init`, through `VioletGW::init` and `dpdk::init`. -/
def ealVector (argv0 : Arg) (args : List Arg) : List Arg :=
  (parseVgwCommandLineFlags (argv0 :: args) (Nat.le_add_left 1 args.length)).ealArgv

/-- `rte_eal_init` interprets the arguments before the first `--`. -/
def StopsAtDashes (rteEalInit : List Arg → List Arg) : Prop :=
  ∀ argv0 args, rteEalInit (argv0 :: args) = args.takeWhile fun arg => arg ≠ dashes

/-- With the separator and without it, EAL interprets the arguments `e`. -/
def Transparent (rteEalInit : List Arg → List Arg) (argv0 : Arg) (v e : List Arg) : Prop :=
  rteEalInit (ealVector argv0 (v ++ dashes :: e)) = e ∧ rteEalInit (ealVector argv0 (v ++ e)) = e

/-! ## The two runs of the loop -/

/-- The loop takes complete flags, whatever comes after them. -/
theorem splitArgs_complete {v : List Arg} (hv : CompleteFlags v) (hdash : dashes ∉ v)
    (rest : List Arg) (out : ArgVectors) :
    splitArgs (v ++ rest) out = splitArgs rest { out with vgwArgv := out.vgwArgv ++ v } := by
  induction hv generalizing out with
  | nil => rw [List.nil_append, List.append_nil]
  | @flag arg v hflag htakes hv ih =>
      have harg : arg ≠ dashes := (List.ne_of_not_mem_cons hdash).symm
      have hnot : ¬isVgwFlag arg = false := ne_false_of_eq_true hflag
      have hvalue : ¬(flagRequiresValue arg ∧ arg.idxOf? '=' = none) := by
        intro hvalue
        rw [takesValue_iff.mpr ⟨hflag, hvalue⟩] at htakes
        exact Bool.noConfusion htakes
      rw [List.cons_append, splitArgs_flag _ _ harg hnot hvalue, ih (List.not_mem_of_not_mem_cons hdash),
        List.append_assoc, List.singleton_append]
  | @value arg value v htakes hv ih =>
      have harg : arg ≠ dashes := (List.ne_of_not_mem_cons hdash).symm
      obtain ⟨hflag, hvalue⟩ := takesValue_iff.mp htakes
      have hrest : dashes ∉ v := List.not_mem_of_not_mem_cons (List.not_mem_of_not_mem_cons hdash)
      rw [List.cons_append, List.cons_append,
        splitArgs_value _ _ value harg (ne_false_of_eq_true hflag) hvalue, ih hrest, List.append_assoc]
      rfl

/-- The loop leaves the arguments of EAL to EAL. -/
theorem splitArgs_eal {e : List Arg} (he : ∀ arg ∈ e, isVgwFlag arg = false) (hdash : dashes ∉ e)
    (out : ArgVectors) : splitArgs e out = { out with ealArgv := out.ealArgv ++ e } := by
  induction e generalizing out with
  | nil => rw [splitArgs, List.append_nil]
  | cons arg e ih =>
      have harg : arg ≠ dashes := (List.ne_of_not_mem_cons hdash).symm
      have hflag : isVgwFlag arg = false := he arg List.mem_cons_self
      rw [splitArgs_other e out harg hflag,
        ih (fun a ha => he a (List.mem_cons_of_mem _ ha)) (List.not_mem_of_not_mem_cons hdash),
        List.append_assoc, List.singleton_append]

section Vectors

variable {v : List Arg} (hv : CompleteFlags v) (hvdash : dashes ∉ v)
include hv hvdash

theorem ealVector_separated (argv0 : Arg) (e : List Arg) :
    ealVector argv0 (v ++ dashes :: e) = argv0 :: dashes :: e := by
  show (splitArgs (v ++ dashes :: e) ⟨[argv0], [argv0]⟩).ealArgv = _
  rw [splitArgs_complete hv hvdash, splitArgs_separator]
  rfl

theorem ealVector_plain (argv0 : Arg) {e : List Arg} (he : ∀ arg ∈ e, isVgwFlag arg = false)
    (hdash : dashes ∉ e) : ealVector argv0 (v ++ e) = argv0 :: e := by
  show (splitArgs (v ++ e) ⟨[argv0], [argv0]⟩).ealArgv = _
  rw [splitArgs_complete hv hvdash, splitArgs_eal he hdash]
  rfl

end Vectors

/-! ## What EAL interprets -/

theorem takeWhile_of_no_dashes {e : List Arg} (hdash : dashes ∉ e) :
    (e.takeWhile fun arg => arg ≠ dashes) = e := by
  apply List.takeWhile_eq_self_iff.mpr
  intro arg harg
  apply decide_eq_true
  rintro rfl
  exact hdash harg

/-- The separator is transparent exactly when there are no arguments of EAL. -/
theorem transparent_iff (rteEalInit : List Arg → List Arg) (hstops : StopsAtDashes rteEalInit)
    (argv0 : Arg) (v : List Arg) (hv : CompleteFlags v) (hvdash : dashes ∉ v) (e : List Arg)
    (he : ∀ arg ∈ e, isVgwFlag arg = false) (hdash : dashes ∉ e) :
    Transparent rteEalInit argv0 v e ↔ e = [] := by
  have hsep : rteEalInit (ealVector argv0 (v ++ dashes :: e)) = [] := by
    rw [ealVector_separated hv hvdash, hstops]
    exact List.takeWhile_cons_of_neg (by simp)
  have hplain : rteEalInit (ealVector argv0 (v ++ e)) = e := by
    rw [ealVector_plain hv hvdash argv0 he hdash, hstops, takeWhile_of_no_dashes hdash]
  rw [Transparent, hsep, hplain]
  constructor
  · rintro ⟨hnil, -⟩
    exact hnil.symm
  · rintro rfl
    exact ⟨rfl, rfl⟩

/-- An `rte_eal_init` that does just this. -/
def labEalInit (argv : List Arg) : List Arg := (argv.drop 1).takeWhile fun arg => arg ≠ dashes

theorem stopsAtDashes_labEalInit : StopsAtDashes labEalInit := fun _ _ => rfl

/-- Two flags of the gateway, the second one with its value. -/
def labFlags : List Arg := ["--datapath_mode=rtc".toList, "--rtc_workers".toList, "1".toList]

theorem completeFlags_labFlags : CompleteFlags labFlags :=
  .flag (by decide +kernel) (by decide +kernel) (.value (by decide +kernel) .nil)

/-- A separator with nothing behind it does no harm. -/
theorem transparent_nil : Transparent labEalInit "vgw".toList labFlags [] :=
  (transparent_iff labEalInit stopsAtDashes_labEalInit "vgw".toList labFlags completeFlags_labFlags
    (by decide +kernel) [] (by decide) (by decide)).mpr rfl

/-- `vgw --datapath_mode=rtc --rtc_workers 1 -- -l 0`: EAL does not see that it is to run on core 0. -/
theorem not_transparent_cores :
    StopsAtDashes labEalInit ∧ CompleteFlags labFlags ∧ dashes ∉ labFlags ∧
    (∀ arg ∈ ["-l".toList, "0".toList], isVgwFlag arg = false) ∧
    dashes ∉ ["-l".toList, "0".toList] ∧
    labEalInit (ealVector "vgw".toList (labFlags ++ dashes :: ["-l".toList, "0".toList])) = [] ∧
    labEalInit (ealVector "vgw".toList (labFlags ++ ["-l".toList, "0".toList])) =
      ["-l".toList, "0".toList] ∧
    ¬Transparent labEalInit "vgw".toList labFlags ["-l".toList, "0".toList] := by
  have hsep : labEalInit
      (ealVector "vgw".toList (labFlags ++ dashes :: ["-l".toList, "0".toList])) = [] := by
    decide +kernel
  refine ⟨stopsAtDashes_labEalInit, completeFlags_labFlags, by decide +kernel, by decide +kernel,
    by decide +kernel, hsep, by decide +kernel, ?_⟩
  rintro ⟨hsame, -⟩
  rw [hsep] at hsame
  exact absurd (congrArg List.length hsame) (by decide)

end Flags

end VioletGateway
