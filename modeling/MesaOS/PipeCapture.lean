/-
What `kprint` leaves in the buffer of a pipe.

A text that does not fit behind the others is dropped, and a shorter text printed later is put
where it would have begun.

* `run_kprint_piping` — `pipe_buffer` is a buffer that takes whole chunks;
* `capturesPrefix_iff` — for which texts it holds a prefix of what was printed, without a gap.
-/
import MesaOS.ChunkBuffer
import MesaOS.Pipeline

open MachineWord Runs ChunkBuffer MesaOS.FS

namespace MesaOS.System.Shell

variable {σ : Type} (commands : Commands σ) (sh : Shell σ)

/-- `pipe_buffer` holds the text and a zero behind it. -/
def HoldsText (sh : Shell σ) (text : List U8) : Prop :=
  text.length < 4096 ∧ ∀ i ≤ text.length, sh.pipeBuffer i = bufferOf text i

/-- After each of the texts `pipe_buffer` holds a prefix of what was printed, and after a text
that did not fit nothing is added to it. -/
def CapturesPrefix (texts : List CString) : Prop :=
  ∀ printed, printed <+: texts → ∃ u, run (Shell.kprint commands) sh printed = some u ∧
    (∃ text, text <+: printed.flatMap CString.bytes ∧ u.HoldsText text) ∧
    ∀ before t after v, printed = before ++ t :: after →
      run (Shell.kprint commands) sh before = some v → 4095 ≤ v.pipeCursor + t.bytes.length →
      ∀ i < 4096, u.pipeBuffer i = v.pipeBuffer i

/-- What the texts before a text take. -/
def printedLength (texts : List CString) : ℕ := (texts.flatMap CString.bytes).length

theorem printedLength_eq (texts : List CString) :
    printedLength texts = (texts.map CString.bytes).flatten.length := by
  rw [printedLength, List.flatMap_def]

theorem run_kprint_piping {kept : List U8} (texts : List CString) :
    run (Shell.kprint commands) (sh.piping kept) texts =
      some (sh.piping (fill 4095 kept (texts.map CString.bytes))) := by
  induction texts generalizing kept with
  | nil => rfl
  | cons t texts ih =>
    rw [run_cons, List.map_cons, fill]
    by_cases hfits : kept.length + t.bytes.length < 4095
    · rw [kprint_piping commands sh hfits, Option.bind_some, if_pos hfits]
      exact ih
    · have hdropped : (sh.piping kept).kprint commands t = some (sh.piping kept) := by
        rw [Shell.kprint, piping, if_pos rfl]
        exact if_neg hfits
      rw [hdropped, Option.bind_some, if_neg hfits]
      exact ih

theorem pipeBuffer_piping (text : List U8) : (sh.piping text).pipeBuffer = bufferOf text := rfl

/-- The texts that the buffer has taken. -/
def captured (texts : List CString) : List U8 := fill 4095 [] (texts.map CString.bytes)

theorem length_captured_lt (texts : List CString) : (captured texts).length < 4095 :=
  length_fill_lt _ (by decide)

theorem noNul_captured (texts : List CString) : 0#8 ∉ captured texts := by
  intro h
  rcases mem_fill h with hnil | hmem
  · exact List.not_mem_nil hnil
  · obtain ⟨text, htext, hzero⟩ := List.mem_flatten.mp hmem
    obtain ⟨t, -, rfl⟩ := List.mem_map.mp htext
    exact t.noNul hzero

theorem noNul_flatMap (texts : List CString) : 0#8 ∉ texts.flatMap CString.bytes := by
  intro h
  obtain ⟨t, -, hzero⟩ := List.mem_flatMap.mp h
  exact t.noNul hzero

/-- The string in the buffer is what the buffer has taken. -/
theorem stringAt_captured (texts : List CString) :
    (stringAt (bufferOf (captured texts)) 0).bytes = captured texts := by
  refine stringAt_eq (fun i _ => by rw [Nat.zero_add]) (noNul_captured texts) ?_ ?_
  · rw [Nat.zero_add, bufferOf, List.getD_eq_default _ _ (Nat.le_refl _)]
  · rw [Nat.zero_add]
    exact Nat.lt_of_lt_of_le (length_captured_lt texts) (by decide)

theorem captured_of_holdsText {texts : List CString} {text : List U8}
    (h : (sh.piping (captured texts)).HoldsText text) (hnul : 0#8 ∉ text) :
    captured texts = text := by
  obtain ⟨hlength, hbuffer⟩ := h
  rw [pipeBuffer_piping] at hbuffer
  rw [← stringAt_captured texts]
  refine stringAt_eq (fun i hi => ?_) hnul ?_ ?_
  · rw [Nat.zero_add, hbuffer i (Nat.le_of_lt hi)]
  · rw [Nat.zero_add, hbuffer _ (Nat.le_refl _), bufferOf,
      List.getD_eq_default _ _ (Nat.le_refl _)]
  · rwa [Nat.zero_add]

theorem holdsText_captured (texts : List CString) :
    (sh.piping (captured texts)).HoldsText (captured texts) :=
  ⟨Nat.lt_of_lt_of_le (length_captured_lt texts) (by decide), fun _ _ => rfl⟩

theorem run_kprint (texts : List CString) :
    run (Shell.kprint commands) (sh.piping []) texts = some (sh.piping (captured texts)) :=
  run_kprint_piping commands sh texts

theorem gapless_of_capturesPrefix {texts : List CString}
    (h : CapturesPrefix commands (sh.piping []) texts) :
    Gapless 4095 (texts.map CString.bytes) := by
  intro sent hsent
  obtain ⟨printed, hprinted, rfl⟩ := List.prefix_map_iff.mp hsent
  obtain ⟨u, hrun, ⟨text, htext, hholds⟩, hclosed⟩ := h printed hprinted
  rw [run_kprint, Option.some_inj] at hrun
  subst hrun
  have hnul : 0#8 ∉ text := fun hmem => noNul_flatMap printed (htext.subset hmem)
  have hsame : captured printed = text := captured_of_holdsText sh hholds hnul
  refine ⟨?_, ?_⟩
  · rw [← List.flatMap_def]
    exact (congrArg (· <+: printed.flatMap CString.bytes) hsame).mpr htext
  · intro before chunk after heq hover
    obtain ⟨first, rest, rfl, rfl, hrest⟩ := List.map_eq_append_iff.mp heq
    obtain ⟨t, later, rfl, rfl, rfl⟩ := List.map_eq_cons_iff.mp hrest
    have hbuffer := hclosed first t later _ rfl (run_kprint commands sh first) hover
    refine captured_of_holdsText sh ⟨(holdsText_captured sh first).1, fun i hi => ?_⟩
      (noNul_captured first)
    exact hbuffer i (Nat.lt_of_le_of_lt hi (holdsText_captured sh first).1)

theorem capturesPrefix_of_gapless {texts : List CString}
    (h : Gapless 4095 (texts.map CString.bytes)) :
    CapturesPrefix commands (sh.piping []) texts := by
  intro printed hprinted
  obtain ⟨htaken, hclosed⟩ := h _ (hprinted.map CString.bytes)
  refine ⟨_, run_kprint commands sh printed, ⟨captured printed, ?_, holdsText_captured sh printed⟩,
    ?_⟩
  · rw [List.flatMap_def]
    exact htaken
  · rintro before t after v rfl hrun hover i -
    rw [run_kprint, Option.some_inj] at hrun
    subst hrun
    have hsame : captured (before ++ t :: after) = captured before :=
      hclosed (before.map CString.bytes) t.bytes (after.map CString.bytes)
        (by rw [List.map_append, List.map_cons]) hover
    rw [hsame]

/-- `StaysFull` in the words of the shell. -/
theorem staysFull_iff (texts : List CString) :
    StaysFull 4095 (texts.map CString.bytes) ↔
      ∀ before t after, texts = before ++ t :: after → printedLength before < 4095 →
        4095 ≤ printedLength (before ++ [t]) →
        ∀ later ∈ after, later.bytes = [] ∨ 4095 ≤ printedLength before + later.bytes.length := by
  constructor
  · rintro h before t after rfl hroom hover later hlater
    rw [printedLength_eq] at hroom hover ⊢
    rw [List.map_append] at hover
    exact h (before.map CString.bytes) t.bytes (after.map CString.bytes)
      (by rw [List.map_append, List.map_cons]) hroom hover later.bytes (List.mem_map_of_mem hlater)
  · intro h before chunk after heq hroom hover later hlater
    obtain ⟨first, rest, rfl, rfl, hrest⟩ := List.map_eq_append_iff.mp heq
    obtain ⟨t, rest, rfl, rfl, rfl⟩ := List.map_eq_cons_iff.mp hrest
    obtain ⟨text, htext, rfl⟩ := List.mem_map.mp hlater
    have hlast := h first t rest rfl
    rw [printedLength_eq, printedLength_eq, List.map_append] at hlast
    exact hlast hroom hover text htext

/-- A shell whose pipe has been cleared. -/
theorem piping_nil (hactive : sh.pipeActive = true) (hbuffer : sh.pipeBuffer = fun _ => 0)
    (hcursor : sh.pipeCursor = 0) : sh.piping [] = sh := by
  obtain ⟨redirOut, redirFile, pipeActive, pipeBuffer, pipeCursor, pipeInput, screen, world⟩ := sh
  obtain rfl : pipeActive = true := hactive
  obtain rfl : pipeBuffer = fun _ => 0 := hbuffer
  obtain rfl : pipeCursor = 0 := hcursor
  rfl

/-- The buffer of a pipe holds a prefix of what was printed, and nothing behind a gap, exactly
when no text after the first that does not fit is short enough to fit. -/
theorem capturesPrefix_iff (hactive : sh.pipeActive = true) (hbuffer : sh.pipeBuffer = fun _ => 0)
    (hcursor : sh.pipeCursor = 0) (texts : List CString) :
    CapturesPrefix commands sh texts ↔
      ∀ before t after, texts = before ++ t :: after → printedLength before < 4095 →
        4095 ≤ printedLength (before ++ [t]) →
        ∀ later ∈ after, later.bytes = [] ∨ 4095 ≤ printedLength before + later.bytes.length := by
  rw [← staysFull_iff, ← gapless_iff (by decide), ← piping_nil sh hactive hbuffer hcursor]
  exact ⟨gapless_of_capturesPrefix commands _, capturesPrefix_of_gapless commands _⟩

/-! ### A text that is too long -/

/-- As many letters as the buffer has characters. -/
def longText : CString :=
  ⟨List.replicate 4096 0x61, fun h => absurd (List.eq_of_mem_replicate h) (by decide)⟩

/-- A long text is dropped, and the short one behind it is all the buffer holds. -/
theorem long_not_capturesPrefix :
    ¬CapturesPrefix echoOnly ((start ()).piping []) [longText, letterB] := by
  intro h
  have hfull := staysFull_of_gapless (gapless_of_capturesPrefix echoOnly (start ()) h)
  rcases hfull [] longText.bytes [letterB.bytes] rfl (by decide)
      (by rw [List.nil_append, List.flatten_singleton, longText, List.length_replicate]; decide)
      letterB.bytes (List.mem_singleton_self _) with hempty | hlong
  · exact absurd hempty (by decide)
  · exact absurd hlong (by decide)

/-- Two letters fit. -/
theorem capturesPrefix_iff_letters :
    CapturesPrefix echoOnly ((start ()).piping []) [letterA, letterB] := by
  refine (capturesPrefix_iff echoOnly ((start ()).piping []) rfl rfl rfl _).mpr ?_
  intro before t after heq hroom hover
  have hlength : printedLength [letterA, letterB] = 2 := by decide
  rw [heq, printedLength, List.flatMap_append, List.flatMap_cons, List.length_append,
    List.length_append] at hlength
  rw [printedLength, List.flatMap_append, List.flatMap_singleton, List.length_append] at hover
  omega

end MesaOS.System.Shell
