import CubridWebManager.HostConfig.ConfWriters
import CubridWebManager.Lib.LostUpdate

/-!
# Conf files lose no update

All writers of a host's conf files are in the queue of the host, so every write is made from the lines that it replaces
(`conf_writes_kept`), and a raw save from the text that it was loaded from.
-/

namespace CubridWebManager.HostConfig

open Conf ReadModifyWrite Transition

section protocol

variable {File : Type} {lower : Text → Text} {hosts : String → String → Host} {cms : CmsConf File}

theorem conf_exclusive (s : State Call (String × Int) (Host × ConfName) File (Option (List Text)) (List Text))
    (a : Act Call) : Exclusive (confProtocol lower hosts cms) s a := by
  refine exclusive_of_key (fun call call' hobject => ⟨rfl, ?_⟩) s a
  have hhost : hosts call'.userId call'.hostUid = hosts call.userId call.hostUid := congrArg Prod.fst hobject
  exact congrArg (fun host => some (hostConfigKey host)) hhost

theorem rawSave_eq_some {confdata loaded : List Text} {current : Option (List Text)} {r : Option (List Text)}
    (h : rawSave confdata loaded current = some r) :
    confText loaded = confText (current.getD []) ∧ r = some confdata := by
  unfold rawSave at h
  split at h
  · rename_i htext
    exact ⟨htext, (Option.some.inj h).symm⟩
  · cases h

end protocol

/-- What a conf file holds is what all writes have made of it, each of them made from the file as it was immediately
before; a call that reports that it has written has; and a raw save that succeeds has found the text it was loaded
from. -/
theorem conf_writes_kept {File : Type} (lower : Text → Text) (hosts : String → String → Host) (cms : CmsConf File)
    (files : Host × ConfName → File) {as : List (Act Call)}
    {s : State Call (String × Int) (Host × ConfName) File (Option (List Text)) (List Text)}
    (hrun : Run (step (confProtocol lower hosts cms)) Always (start files) as s) :
    s.contents = after (confProtocol lower hosts cms) files s.history ∧
    (∀ h₁ w h₂, s.history = h₁ ++ w :: h₂ → w.op.edit.lines lower (cms.get (after (confProtocol lower hosts cms) files h₁
      (hosts w.op.userId w.op.hostUid, w.op.edit.confname))) = some (some w.request)) ∧
    (∀ t call, s.threads t = .done call .written → ∃ w ∈ s.history, w.thread = t ∧ w.op = call) ∧
    ∀ t call confname confdata loaded result, call.edit = .rawSave confname confdata loaded →
      s.threads t = .done call result → result = .written ∨ result = .unchanged →
      ∃ h₁ w h₂, s.history = h₁ ++ w :: h₂ ∧ w.thread = t ∧ w.op = call ∧ w.request = confdata ∧
        confText loaded = confText ((cms.get (after (confProtocol lower hosts cms) files h₁
          (hosts call.userId call.hostUid, confname))).getD []) := by
  have hexclusive : Run (step (confProtocol lower hosts cms)) (Exclusive (confProtocol lower hosts cms)) (start files)
      as s := hrun.mono fun s a _ => conf_exclusive s a
  have hkept := Kept.run hexclusive
  have hrecorded := Recorded.run hrun
  have hmade : ∀ h₁ w h₂, s.history = h₁ ++ w :: h₂ → w.op.edit.lines lower (cms.get (after
      (confProtocol lower hosts cms) files h₁ (hosts w.op.userId w.op.hostUid, w.op.edit.confname))) =
        some (some w.request) := by
    intro h₁ w h₂ hhistory
    exact Option.join_eq_some_iff.1 (hkept.made h₁ w h₂ hhistory)
  have hwritten : ∀ t call, s.threads t = .done call .written → ∃ w ∈ s.history, w.thread = t ∧ w.op = call :=
    fun t call hdone => (hrecorded.wrote t call).1 (congrArg Pc.wrote? hdone)
  refine ⟨hkept.contents, hmade, hwritten, ?_⟩
  intro t call confname confdata loaded result hedit hdone hresult
  rcases hresult with rfl | rfl
  · obtain ⟨w, hw, hthread, rfl⟩ := hwritten t call hdone
    obtain ⟨h₁, h₂, hhistory⟩ := List.append_of_mem hw
    have hlines := hmade h₁ w h₂ hhistory
    rw [hedit] at hlines
    obtain ⟨htext, hrequest⟩ := rawSave_eq_some hlines
    exact ⟨h₁, w, h₂, hhistory, hthread, rfl, Option.some.inj hrequest, htext⟩
  · -- a raw save never returns without a write
    have hok := (Queued.run hrun).ok t
    rw [hdone] at hok
    obtain ⟨view, hview⟩ := hok
    have hlines : call.edit.lines lower view = some none := hview
    rw [hedit] at hlines
    cases (rawSave_eq_some hlines).2

/-- A conf file is the lines that were written. -/
def plainConf : CmsConf (List Text) := ⟨some, fun _ confdata => confdata⟩

def oneHost : String → String → Host := fun _ _ => ⟨"10.0.0.1", 8001⟩

def serviceConf : List Text := ["[service]".toList, "server=a".toList]

def startB : Call := ⟨"user1", "host1", .setAutoStart "b".toList⟩

def saveLoaded : Call := ⟨"user2", "host2", .rawSave .cubridconf ["[service]".toList] serviceConf⟩

/-- The thread goes on as often. -/
def resumes (t n : Nat) : List (Act Call) := List.replicate n (.resume t)

/-- Two users, each with an id of their own for the host: the save was loaded before the database was added. -/
theorem conf_writes_kept_two :
    ∃ s, Run (step (confProtocol asciiLower.lower oneHost plainConf)) Always (start fun _ => serviceConf)
        ([.call startB, .call saveLoaded] ++ resumes 0 1 ++ resumes 1 1 ++ resumes 0 2 ++ [.serve 0] ++ resumes 0 1 ++
          [.serve 0] ++ resumes 0 2 ++ resumes 1 2 ++ [.serve 1] ++ resumes 1 2) s ∧
      s.threads 0 = .done startB .written ∧ s.threads 1 = .done saveLoaded .failed ∧
      s.contents (⟨"10.0.0.1", 8001⟩, .cubridconf) = ["[service]".toList, "server=a,b".toList] ∧
      ∃ w ∈ s.history, w.thread = 0 ∧ w.op = startB := by
  obtain ⟨s, hrun, hstart, hsave, hcontents⟩ : ∃ s, Run (step (confProtocol asciiLower.lower oneHost plainConf)) Always
        (start fun _ => serviceConf)
        ([.call startB, .call saveLoaded] ++ resumes 0 1 ++ resumes 1 1 ++ resumes 0 2 ++ [.serve 0] ++ resumes 0 1 ++
          [.serve 0] ++ resumes 0 2 ++ resumes 1 2 ++ [.serve 1] ++ resumes 1 2) s ∧
      s.threads 0 = .done startB .written ∧ s.threads 1 = .done saveLoaded .failed ∧
      s.contents (⟨"10.0.0.1", 8001⟩, .cubridconf) = ["[service]".toList, "server=a,b".toList] := exists_run (by decide)
  exact ⟨s, hrun, hstart, hsave, hcontents,
    (conf_writes_kept asciiLower.lower oneHost plainConf _ hrun).2.2.1 0 startB hstart⟩

end CubridWebManager.HostConfig
