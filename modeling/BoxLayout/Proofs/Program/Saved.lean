import BoxLayout.Proofs.Snapshot.Printed
import BoxLayout.Proofs.Snapshot.Resaved

namespace BoxLayout

-- The program run once more on a file that it has saved.

def Files.holding (files : Files) (path text : String) : Files where
  present other := other = path || files.present other
  content other := if other = path then .ok text else files.content other
  refusal := files.refusal

namespace Frames
variable {f g : Forest} {o : FramesOptions} {files : Files} {path text : String}

def answer (o : FramesOptions) (f : Forest) : Script :=
  match o.hit.map point with
  | none => report o none (laidOut o f)
  | some (.ok at_point) => report o (some at_point) (laidOut o f)
  | some (.error failure) => .fail failure

theorem outcome_script (present : files.present o.snapshot = true)
    (loaded : Forest.ofFile o.snapshot (files.content o.snapshot) = .ok f) :
    (script o).outcome files = (answer o f).outcome files := by
  unfold script answer
  rcases o.hit.map point with _ | failure | at_point <;>
    simp only [Script.loading,Script.outcome,present,if_true,loaded]

theorem wrote_loading {check : Option Failure} {next : Forest → Script} {file : String}
    (wrote : Event.wrote path text ∈ ((Script.loading file check next).outcome files).events) :
    files.present file = true ∧ ∃ f, Forest.ofFile file (files.content file) = .ok f ∧
      Event.wrote path text ∈ ((next f).outcome files).events := by
  unfold Script.loading at wrote
  simp only [Script.outcome] at wrote
  split at wrote
  · rename_i present
    cases check with
    | some failure => cases wrote
    | none =>
        simp only [Script.outcome] at wrote
        cases loaded : Forest.ofFile file (files.content file) with
        | error e =>
            rw [loaded] at wrote
            cases wrote
        | ok f =>
            rw [loaded] at wrote
            exact ⟨present,f,rfl,wrote⟩
  · cases wrote

theorem wrote_saving {save : Option String} (wrote : Event.wrote path text ∈ ((saving f save).outcome files).events) :
    text = f.capture.print := by
  cases save with
  | none => cases wrote
  | some file =>
      simp only [saving,Script.outcome] at wrote
      split at wrote
      · cases wrote
      · rcases List.mem_cons.mp wrote with same | later
        · exact (Event.wrote.inj same).2
        · cases later

theorem wrote_report {hit : Option (PerAxis Single)}
    (wrote : Event.wrote path text ∈ ((report o hit f).outcome files).events) : text = f.capture.print := by
  have verified : Event.wrote path text ∈ ((verifying o.verify f (saving f o.save)).outcome files).events →
      text = f.capture.print := by
    intro wrote
    unfold verifying at wrote
    split at wrote
    · split at wrote
      · rcases List.mem_cons.mp wrote with same | later
        · cases same
        · exact wrote_saving later
      · cases wrote
    · exact wrote_saving wrote
  unfold report at wrote
  rcases List.mem_cons.mp wrote with same | later
  · cases same
  · cases hit with
    | none => exact verified later
    | some point =>
        rcases List.mem_cons.mp later with same | later
        · cases same
        · exact verified later

theorem wrote_script (wrote : Event.wrote path text ∈ ((script o).outcome files).events) :
    files.present o.snapshot = true ∧ ∃ f, Forest.ofFile o.snapshot (files.content o.snapshot) = .ok f ∧
      text = (laidOut o f).capture.print := by
  unfold script at wrote
  split at wrote
  · obtain ⟨present,f,loaded,written⟩ := wrote_loading wrote
    exact ⟨present,f,loaded,wrote_report written⟩
  · obtain ⟨present,f,loaded,written⟩ := wrote_loading wrote
    exact ⟨present,f,loaded,wrote_report written⟩
  · obtain ⟨_,_,_,written⟩ := wrote_loading wrote
    cases written

theorem outcome_answer {others : Files} (same : others.refusal = files.refusal) :
    (answer o f).outcome others = (answer o f).outcome files := by
  have saved : ∀ f : Forest, (saving f o.save).outcome others = (saving f o.save).outcome files := by
    intro f
    cases o.save with
    | none => rfl
    | some file =>
        simp only [saving,Script.outcome,same]
  have verified : ∀ f : Forest, (verifying o.verify f (saving f o.save)).outcome others =
      (verifying o.verify f (saving f o.save)).outcome files := by
    intro f
    unfold verifying
    split
    · split
      · exact congrArg (Script.prepend _) (saved f)
      · rfl
    · exact saved f
  unfold answer
  split
  · exact congrArg (Script.prepend _) (verified _)
  · exact congrArg (Script.prepend _) (congrArg (Script.prepend _) (verified _))
  · rfl

theorem report_eq (same : Forest.SameControls f g) (here : f.Linked) (there : g.Linked) (hit : Option (PerAxis Single)) :
    report o hit g = report o hit f := by
  have capture := same.capture_eq here there
  have verify := same.verify_eq here there
  unfold report summary hitLine verifying saving
  simp only [capture,verify,same.size,same.box,same.hitTest_eq]

theorem fresh_resized (fresh : f.Fresh) (o : FramesOptions) : (resized o f).Fresh := by
  unfold resized
  split
  · exact fresh
  · dsimp only
    split
    · rename_i done
      exact fresh.setSize done
    · exact fresh

theorem fresh_ofFile {content : Except String String} (loaded : Forest.ofFile path content = .ok f) : f.Fresh := by
  unfold Forest.ofFile at loaded
  split at loaded
  · cases loaded
  · split at loaded
    · exact .of_restore loaded
    · cases loaded

end Frames

namespace Forest
variable {f g : Forest} {s : Snapshot}

theorem Fresh.repeats (fresh : f.Fresh) (n : Nat) : ∃ g, (update^[n + 1] f).capture.restore = .ok g ∧ ∀ m,
    (update^[m + 1] g).capture = (update^[n + 1] f).capture ∧ (update^[m + 1] g).verify = (update^[n + 1] f).verify ∧
      ∀ point, (update^[m + 1] g).hitTest point = (update^[n + 1] f).hitTest point := by
  obtain ⟨g,done,again,same⟩ := fresh.resaved
  have here := fresh.reachable.update.linked
  have there := again.reachable.update.linked
  rw [iterate_update fresh.reachable]
  refine ⟨g,done,fun m => ?_⟩
  rw [iterate_update again.reachable]
  exact ⟨same.capture_eq here there,same.verify_eq here there,same.hitTest_eq⟩

end Forest

open Frames

theorem saved_layouts_repeat :
    (∀ (s : Snapshot) (f₀ f : Forest), s.restore = .ok f₀ → (f = f₀ ∨ ∃ size, f₀.setSize .root size = .ok f) → ∀ n,
      ∃ g, (Forest.update^[n + 1] f).capture.restore = .ok g ∧ ∀ m,
        (Forest.update^[m + 1] g).capture = (Forest.update^[n + 1] f).capture ∧
          (Forest.update^[m + 1] g).verify = (Forest.update^[n + 1] f).verify ∧
          ∀ point, (Forest.update^[m + 1] g).hitTest point = (Forest.update^[n + 1] f).hitTest point) ∧
      ∀ (o : FramesOptions) (files : Files) (path text : String),
        Event.wrote path text ∈ ((Frames.script o).outcome files).events →
        ∃ f, Forest.ofFile o.snapshot (files.content o.snapshot) = .ok f ∧ text = (Frames.laidOut o f).capture.print ∧
          ((Frames.laidOut o f).capture.Survives → ∀ again : FramesOptions,
            again.snapshot = path → again.width = none → again.height = none →
            (Frames.script again).outcome (files.holding path text) =
              (Frames.script { o with hit := again.hit, verify := again.verify, save := again.save }).outcome files) := by
  constructor
  · rintro s f₀ f done given n
    have fresh : f.Fresh := by
      rcases given with rfl | ⟨size,resized⟩
      · exact .of_restore done
      · exact (Forest.Fresh.of_restore done).setSize resized
    exact fresh.repeats n
  · intro o files path text wrote
    obtain ⟨present,f,loaded,printed⟩ := wrote_script wrote
    refine ⟨f,loaded,printed,fun survives again reading unwidened unheightened => ?_⟩
    have fresh := fresh_resized (fresh_ofFile loaded) o
    obtain ⟨g,done,refreshed,same⟩ := fresh.resaved
    have laidOut_first := laidOut_eq (fresh_ofFile loaded).reachable o
    rw [laidOut_first] at printed survives
    have reloaded : Forest.ofFile again.snapshot ((files.holding path text).content again.snapshot) = .ok g := by
      simp only [Files.holding,reading,if_true,Forest.ofFile,printed,Snapshot.parse?_print _ survives,done]
    have held : (files.holding path text).present again.snapshot = true := by
      simp [Files.holding,reading]
    have laidOut_again : laidOut again g = g.update := by
      rw [laidOut_eq refreshed.reachable,resized,unwidened,unheightened]
      rfl
    have same_reports : ∀ hit, report again hit (laidOut again g) =
        report { o with hit := again.hit, verify := again.verify, save := again.save } hit (laidOut o f) := by
      intro hit
      rw [laidOut_again,laidOut_first]
      exact report_eq same fresh.reachable.update.linked refreshed.reachable.update.linked hit
    have same_answers : answer again g = answer { o with hit := again.hit, verify := again.verify, save := again.save } f := by
      unfold answer
      simp only [same_reports]
      rfl
    have second := outcome_script (o := { o with hit := again.hit, verify := again.verify, save := again.save }) present loaded
    rw [outcome_script held reloaded,same_answers,second]
    exact outcome_answer rfl

def rowText : String :=
  "\x7b\"version\":1,\"nodes\":[\x7b\"key\":0,\"container_flags\":1,\"fixed_size\":[100,20]\x7d,\x7b\"key\":1,\"parent\":0,\"layout_flags\":3\x7d]\x7d"

def fillingRow : Snapshot where
  version := 1
  nodes :=
    [{ Node.plain 0 with containerFlags := 1, fixedSize := ⟨100,20⟩ },{ Node.plain 1 with parent := 0, layoutFlags := 3 }]

def rowFile : Files where
  present path := path = "row"
  content path := if path = "row" then .ok rowText else .error "missing"
  refusal _ := none

def widened : FramesOptions where
  snapshot := "row"
  width := some 150
  height := none
  frames := 3
  hit := some "120,10"
  verify := true
  save := some "wide"

theorem widened_wrote : ∃ text, Event.wrote "wide" text ∈ ((script widened).outcome rowFile).events := by
  have some_wrote : (((script widened).outcome rowFile).events.any fun
      | .wrote path _ => path = "wide"
      | .printed _ => false) = true := by decide +kernel
  obtain ⟨event,member,wrote⟩ := List.any_eq_true.mp some_wrote
  cases event with
  | printed text => cases wrote
  | wrote path text =>
      obtain rfl : path = "wide" := of_decide_eq_true wrote
      exact ⟨text,member⟩

theorem widened_survives {f : Forest} (loaded : Forest.ofFile "row" (.ok rowText) = .ok f) :
    (laidOut widened f).capture.Survives := by
  have checked : (Forest.ofFile "row" (.ok rowText)).map (fun f => decide (laidOut widened f).capture.Survives) = .ok true := by
    decide +kernel
  rw [loaded] at checked
  exact of_decide_eq_true (Except.ok.inj checked)

theorem fillingRow_widened : ∃ f₀ f, fillingRow.restore = .ok f₀ ∧ f₀.setSize .root ⟨150,20⟩ = .ok f := by
  have done : (fillingRow.restore >>= fun f => f.setSize .root ⟨150,20⟩).isOk = true := by decide +kernel
  cases resized : fillingRow.restore >>= fun f => f.setSize .root ⟨150,20⟩ with
  | error e => rw [resized] at done; cases done
  | ok f =>
      obtain ⟨f₀,restored,set⟩ := Result.bind_ok.mp resized
      exact ⟨f₀,f,restored,set⟩

theorem saved_layouts_repeat_widened :
    (∃ f₀ f g, fillingRow.restore = .ok f₀ ∧ f₀.setSize .root ⟨150,20⟩ = .ok f ∧
      (Forest.update^[1] f).capture.restore = .ok g ∧ (Forest.update^[2] g).capture = (Forest.update^[1] f).capture) ∧
      ∃ text, Event.wrote "wide" text ∈ ((script widened).outcome rowFile).events ∧
        (script { widened with snapshot := "wide", width := none, frames := 1 }).outcome (rowFile.holding "wide" text) =
          (script widened).outcome rowFile := by
  obtain ⟨restored,saved⟩ := saved_layouts_repeat
  constructor
  · obtain ⟨f₀,f,done,resized⟩ := fillingRow_widened
    obtain ⟨g,again,same⟩ := restored fillingRow f₀ f done (.inr ⟨_,resized⟩) 0
    exact ⟨f₀,f,g,done,resized,again,(same 1).1⟩
  · obtain ⟨text,written⟩ := widened_wrote
    obtain ⟨f,loaded,_,answered⟩ := saved widened rowFile "wide" text written
    exact ⟨text,written,answered (widened_survives loaded)
      { widened with snapshot := "wide", width := none, frames := 1 } rfl rfl rfl⟩

end BoxLayout
