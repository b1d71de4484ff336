/- Module: Ccmux/Steering/ServiceRun
   source: src/steering/service.ts, src/steering/receipt.ts, src/steering/store.ts
   digest: A steering operation is sent once, and its receipt is settled by evidence only. -/

import Ccmux.Steering.Service
import Ccmux.Lib.Machine

namespace Ccmux.Steering

open Ccmux.Chat.Identity (chatPrincipalKey)
open Ccmux.Lib.Machine

def World.rows (w : World) : List SteeringOperation := (w.file.map (·.operations)).getD []

/-- The provider named the expected turn, or showed the client's message in that turn. -/
def Evident (evidence : List Evidence) (receipt : SteeringReceipt) : Prop :=
  .answered receipt.clientUserMessageId receipt.turnId ∈ evidence ∨
    ∃ page, .listed page ∈ evidence ∧
      ∃ turn ∈ page, turn.id = receipt.turnId ∧ turn.holds receipt.clientUserMessageId = true

/-- The file has an operation of the id that another principal or another payload made. -/
def Reused (file : Option SteeringJournal) (request : Request) : Prop :=
  ∃ journal, file = some journal ∧ ∃ row ∈ journal.operations,
    row.id = request.selector.operationId ∧
      (row.principal ≠ chatPrincipalKey request.principal ∨
        ∃ own, request.fingerprint = some own ∧ row.fingerprint ≠ own)

/-- A receipt says `submitted` where its operation does, and only on evidence. -/
structure Settled (evidence : List Evidence) (row : SteeringOperation) : Prop where
  state : row.receipt.state = .submitted ↔ row.phase = .submitted
  evident : row.phase = .submitted → Evident evidence row.receipt

/-- A journal whose operations have ids of their own and are settled rightly. -/
structure Good (evidence : List Evidence) (journal : SteeringJournal) : Prop where
  unique : journal.ids.Nodup
  settled : ∀ row ∈ journal.operations, Settled evidence row

/-- The journal in memory is the one in the file, or a new one for a file that is not there. -/
def Fresh (file : Option SteeringJournal) (journal : SteeringJournal) : Prop :=
  file = some journal ∨ file = none ∧ journal.operations = []

/-- The journal that is about to be written loses no operation, and no settled receipt. -/
structure Amends (evidence : List Evidence) (file : Option SteeringJournal)
    (next : SteeringJournal) : Prop where
  good : Good evidence next
  keeps : ∀ journal, file = some journal → next.registration = journal.registration ∧
    (∀ id ∈ journal.ids, id ∈ next.ids) ∧
    ∀ row ∈ journal.operations, row.phase = .submitted → row ∈ next.operations

/-- What holds while a call stands at a stage. -/
def At (w : World) (r : Running) : Prop :=
  match r.stage with
  | .admitted => w.file = r.before
  | .looking journal prior =>
    w.file = some journal ∧ prior ∈ journal.operations ∧ prior.phase ≠ .submitted ∧
      ¬Reused r.before r.request
  | .settling journal _ => Amends w.evidence w.file journal ∧ ¬Reused r.before r.request
  | .checking journal input =>
    Fresh w.file journal ∧ input.operationId ∉ journal.ids ∧ ¬Reused r.before r.request
  | .intending journal operation input =>
    Amends w.evidence w.file journal ∧ Unsent w.sent journal operation input ∧
      ¬Reused r.before r.request
  | .requesting journal operation input =>
    w.file = some journal ∧ Unsent w.sent journal operation input ∧ ¬Reused r.before r.request
where
  /-- The intent is in the journal, and no request was made for it. -/
  Unsent (sent : List TurnSteer) (journal : SteeringJournal) (operation : SteeringOperation)
      (input : SteeringInput) : Prop :=
    operation ∈ journal.operations ∧ operation.phase = .intent ∧
      operation.receipt.turnId = input.expectedTurnId ∧
      (journal.registration, operation.id) ∉ sent.map TurnSteer.key

structure Base (w : World) : Prop where
  good : ∀ journal, w.file = some journal → Good w.evidence journal
  recorded : ∀ sent ∈ w.sent, ∃ journal, w.file = some journal ∧
    sent.registration = journal.registration ∧ sent.operationId ∈ journal.ids
  once : (w.sent.map TurnSteer.key).Nodup
  refused : ∀ c ∈ w.ended, Reused c.before c.request →
    c.after = c.before ∧ (c.reply = .crashed ∨ ∃ code, c.reply = .failure code)

structure Sound (w : World) : Prop extends Base w where
  running : ∀ r, w.running = some r → At w r

section
variable {jsonBytes : SteeringJournal → Nat} {w v : World} {r : Running} {stage : Stage}
variable {journal next : SteeringJournal} {operation prior row : SteeringOperation}
variable {evidence more : List Evidence} {receipt : SteeringReceipt} {reply : Reply}
variable {file : Option SteeringJournal} {input : SteeringInput} {now : Instant}

theorem Evident.mono (h : Evident evidence receipt) : Evident (evidence ++ more) receipt := by
  rcases h with h | ⟨page, hpage, hturn⟩
  · exact .inl (List.mem_append_left _ h)
  · exact .inr ⟨page, List.mem_append_left _ hpage, hturn⟩

theorem Settled.mono (h : Settled evidence row) : Settled (evidence ++ more) row where
  state := h.state
  evident hphase := (h.evident hphase).mono

theorem Good.mono (h : Good evidence journal) : Good (evidence ++ more) journal where
  unique := h.unique
  settled row hrow := (h.settled row hrow).mono

variable {page : Option (List NativeTurn)} {accepted : Bool} {outcome : WriteOutcome}
  {after : World → World}

theorem acceptedBy_evident (h : acceptedBy page receipt = true) :
    Evident (evidence ++ (page.map Evidence.listed).toList) receipt := by
  unfold acceptedBy at h
  obtain ⟨turn, hturn, hid⟩ := (Option.any_eq_true _ _).mp h
  obtain ⟨turns, rfl, hfind⟩ := Option.bind_eq_some_iff.mp hturn
  refine .inr ⟨turns, by simp, turn, List.mem_of_find?_eq_some hfind, by simpa using hid, ?_⟩
  simpa using List.find?_some hfind

theorem settled_settled (h : accepted = true → Evident evidence operation.receipt) :
    Settled evidence (operation.settled accepted now) := by
  cases accepted with
  | true => exact ⟨iff_of_true rfl rfl, fun _ => h rfl⟩
  | false =>
    refine ⟨iff_of_false ?_ ?_, ?_⟩
    · exact ReceiptState.noConfusion
    · exact Phase.noConfusion
    · exact fun hphase => Phase.noConfusion hphase

theorem amends_settle (hgood : Good evidence journal)
    (hmem : operation ∈ journal.operations) (hopen : operation.phase ≠ .submitted)
    (h : accepted = true → Evident evidence operation.receipt) :
    Amends evidence (some journal) (journal.settle operation.id accepted now) := by
  have hfind := find_eq hgood.unique hmem
  refine ⟨⟨?_, ?_⟩, ?_⟩
  · rw [settle_ids]
    exact hgood.unique
  · intro row hrow
    rcases (mem_settle hgood.unique hfind).mp hrow with rfl | ⟨hrow, _⟩
    · exact settled_settled h
    · exact hgood.settled row hrow
  · rintro _ ⟨rfl⟩
    refine ⟨rfl, ?_, ?_⟩
    · intro id hid
      rw [settle_ids]
      exact hid
    · intro row hrow hphase
      refine (mem_settle hgood.unique hfind).mpr (.inr ⟨hrow, ?_⟩)
      rintro rfl
      exact hopen hphase

theorem good_fresh (hgood : ∀ journal, file = some journal → Good evidence journal)
    (hfresh : Fresh file journal) : Good evidence journal := by
  rcases hfresh with hfile | ⟨_, hempty⟩
  · exact hgood journal hfile
  · refine ⟨?_, ?_⟩
    · rw [SteeringJournal.ids, hempty]
      exact List.nodup_nil
    · intro row hrow
      rw [hempty] at hrow
      cases hrow

/-- Adding an intent under an id that is free. -/
theorem amends_push (hgood : Good evidence journal) (hfresh : Fresh file journal)
    (hid : operation.id ∉ journal.ids) (hstate : operation.receipt.state = .uncertain)
    (hphase : operation.phase = .intent) : Amends evidence file (journal.push operation) := by
  refine ⟨⟨?_, ?_⟩, ?_⟩
  · rw [push_ids]
    exact nodup_grow hgood.unique hid
  · intro row hrow
    rcases List.mem_append.mp hrow with hrow | hrow
    · exact hgood.settled row hrow
    · obtain rfl := List.mem_singleton.mp hrow
      refine ⟨?_, ?_⟩
      · rw [hstate, hphase]
        exact iff_of_false ReceiptState.noConfusion Phase.noConfusion
      · intro hsubmitted
        rw [hphase] at hsubmitted
        cases hsubmitted
  · intro old hold
    rcases hfresh with hfile | ⟨hfile, _⟩
    · obtain rfl := Option.some.inj (hfile.symm.trans hold)
      refine ⟨rfl, ?_, ?_⟩
      · intro id hid
        rw [push_ids]
        exact List.mem_append_left _ hid
      · exact fun row hrow _ => List.mem_append_left _ hrow
    · rw [hfile] at hold
      cases hold

theorem unsent_fresh (h : Base w) (hfresh : Fresh w.file journal) {id : String}
    (hid : id ∉ journal.ids) : (journal.registration, id) ∉ w.sent.map TurnSteer.key := by
  intro hmem
  obtain ⟨sent, hsent, hkey⟩ := List.mem_map.mp hmem
  obtain ⟨old, hold, _, hrecorded⟩ := h.recorded sent hsent
  rcases hfresh with hfile | ⟨hfile, _⟩
  · obtain rfl := Option.some.inj (hfile.symm.trans hold)
    have hsame : sent.operationId = id := congrArg Prod.snd hkey
    exact hid (hsame ▸ hrecorded)
  · rw [hfile] at hold
    cases hold

theorem Base.move (h : Base w) (hat : At w { r with stage }) : Sound (w.move r stage) where
  good := h.good
  recorded := h.recorded
  once := h.once
  refused := h.refused
  running := by
    intro s hs
    obtain rfl := Option.some.inj hs
    exact hat

theorem Base.finish (h : Base w) (hreply : Reused r.before r.request →
    w.file = r.before ∧ (reply = .crashed ∨ ∃ code, reply = .failure code)) :
    Sound (w.finish r reply) where
  good := h.good
  recorded := h.recorded
  once := h.once
  refused := by
    intro c hc
    rcases List.mem_append.mp hc with hc | hc
    · exact h.refused c hc
    · obtain rfl := List.mem_singleton.mp hc
      exact hreply
  running := by
    intro s hs
    cases hs

theorem Base.told (h : Base w) : Base { w with evidence := w.evidence ++ more } where
  good journal hfile := (h.good journal hfile).mono
  recorded := h.recorded
  once := h.once
  refused := h.refused

theorem Base.written (h : Base w) (hamends : Amends w.evidence w.file next) :
    Base { w with file := some next } where
  good := by
    rintro _ ⟨rfl⟩
    exact hamends.good
  recorded := by
    intro sent hsent
    obtain ⟨old, hold, hregistration, hid⟩ := h.recorded sent hsent
    obtain ⟨hsame, hids, _⟩ := hamends.keeps old hold
    exact ⟨next, rfl, hregistration.trans hsame.symm, hids _ hid⟩
  once := h.once
  refused := h.refused

theorem Base.request {sent : TurnSteer} (h : Base w) (hfile : w.file = some journal)
    (hregistration : sent.registration = journal.registration)
    (hid : sent.operationId ∈ journal.ids) (hnew : sent.key ∉ w.sent.map TurnSteer.key) :
    Base { w with sent := w.sent ++ [sent] } where
  good := h.good
  recorded := by
    intro other hother
    rcases List.mem_append.mp hother with hother | hother
    · exact h.recorded other hother
    · obtain rfl := List.mem_singleton.mp hother
      exact ⟨journal, hfile, hregistration, hid⟩
  once := by
    rw [List.map_append]
    exact nodup_grow h.once hnew
  refused := h.refused

theorem Base.done (h : Base w) (hown : ¬Reused r.before r.request) : Sound (w.finish r reply) :=
  h.finish fun hreused => absurd hreused hown

theorem sound_write (h : Base w)
    (hamends : Amends w.evidence w.file next) (hown : ¬Reused r.before r.request)
    (hafter : Base { w with file := some next } → Sound (after { w with file := some next })) :
    Sound (write jsonBytes w r next outcome after) := by
  unfold write
  split
  · exact h.done hown
  · cases outcome with
    | landed => exact hafter (h.written hamends)
    | thrown => exact (h.written hamends).done hown
    | refused => exact h.done hown

theorem own_of_prior (hunique : ∀ journal, file = some journal → journal.ids.Nodup)
    {request : Request} (hfresh : Fresh file journal)
    (hprior : priorSteering journal request.principal request.selector.operationId
      request.fingerprint = .ok (some prior)) : ¬Reused file request := by
  rintro ⟨old, hold, row, hrow, hid, hother⟩
  obtain ⟨hfind, hprincipal, hfingerprint⟩ := priorSteering_some hprior
  rcases hfresh with hfile | ⟨hfile, _⟩
  · obtain rfl := Option.some.inj (hfile.symm.trans hold)
    obtain ⟨hmem, hpriorId⟩ := find_some hfind
    obtain rfl := eq_of_id (hunique journal hfile) hrow hmem (hid.trans hpriorId.symm)
    rcases hother with hother | ⟨own, hown, hother⟩
    · exact hother hprincipal
    · exact hother (hfingerprint own hown)
  · rw [hfile] at hold
    cases hold

theorem own_of_absent {request : Request} (hfresh : Fresh file journal)
    (hid : request.selector.operationId ∉ journal.ids) : ¬Reused file request := by
  rintro ⟨old, hold, row, hrow, hrowId, _⟩
  rcases hfresh with hfile | ⟨hfile, _⟩
  · obtain rfl := Option.some.inj (hfile.symm.trans hold)
    exact hid (hrowId ▸ List.mem_map_of_mem hrow)
  · rw [hfile] at hold
    cases hold

theorem sound_read {readable : Bool} (h : Base w) (hbefore : w.file = r.before) :
    Sound (read w r readable) := by
  have hfail : ∀ code, Sound (w.finish r (.failure code)) := fun code =>
    h.finish fun _ => ⟨hbefore, .inr ⟨code, rfl⟩⟩
  unfold read
  dsimp only
  split
  · exact hfail _
  · split
    · exact hfail _
    · rename_i journal hread
      obtain ⟨hread, _⟩ := Option.filter_eq_some_iff.mp hread
      have hfresh : Fresh w.file journal := (readSteeringJournal_some hread).1
      have hunique := fun journal hfile => (h.good journal hfile).unique
      split
      · exact hfail _
      · rename_i prior hprior
        have hown : ¬Reused r.before r.request := hbefore ▸ own_of_prior hunique hfresh hprior
        obtain ⟨hmem, _⟩ := find_some (priorSteering_some hprior).1
        split
        · exact h.done hown
        · rename_i hopen
          refine h.move ⟨?_, hmem, hopen, hown⟩
          rcases hfresh with hfile | ⟨_, hempty⟩
          · exact hfile
          · rw [hempty] at hmem
            cases hmem
      · rename_i hprior
        have hid := priorSteering_ok hprior
        have hown : ¬Reused r.before r.request := hbefore ▸ own_of_absent hfresh hid
        split
        · exact h.done hown
        · rename_i hrequest
          split
          · exact hfail _
          · refine h.move ⟨hfresh, ?_, hown⟩
            rw [hrequest] at hid
            exact hid

theorem sound_look (h : Base w) (hfile : w.file = some journal)
    (hmem : prior ∈ journal.operations) (hopen : prior.phase ≠ .submitted)
    (hown : ¬Reused r.before r.request) : Sound (look w r journal prior page now) := by
  refine h.told.move ⟨?_, hown⟩
  dsimp only
  rw [hfile]
  exact amends_settle (h.good journal hfile).mono hmem hopen acceptedBy_evident

theorem sound_check {failure : Option SteeringFailure} (h : Base w)
    (hfresh : Fresh w.file journal) (hid : input.operationId ∉ journal.ids)
    (hown : ¬Reused r.before r.request) : Sound (check w r journal input failure now) := by
  unfold check
  cases failure with
  | some code => exact h.done hown
  | none =>
    refine h.move ⟨?_, ⟨?_, rfl, rfl, ?_⟩, hown⟩
    · exact amends_push (good_fresh h.good hfresh) hfresh hid rfl rfl
    · exact List.mem_append_right _ (List.mem_singleton_self _)
    · exact unsent_fresh h hfresh hid

theorem sound_steer {answer : Option String} (h : Base w) (hfile : w.file = some journal)
    (hunsent : At.Unsent w.sent journal operation input) (hown : ¬Reused r.before r.request) :
    Sound (steer w r journal operation input answer now) := by
  obtain ⟨hmem, hintent, hturn, hnew⟩ := hunsent
  have hasked : Base { w with sent := w.sent ++ [turnSteer r journal operation input] } :=
    h.request hfile rfl (List.mem_map_of_mem hmem) hnew
  refine hasked.told.move ⟨?_, hown⟩
  dsimp only
  rw [hfile]
  refine amends_settle (h.good journal hfile).mono hmem ?_ ?_
  · rw [hintent]
    exact Phase.noConfusion
  · intro haccepted
    rw [beq_iff_eq] at haccepted
    rw [haccepted]
    refine .inl (List.mem_append_right _ ?_)
    rw [hturn]
    exact List.mem_singleton_self _

variable {e : Event}

theorem sound_advance (h : Sound w) (hrunning : w.running = some r)
    (hstep : advance jsonBytes w r e = some v) : Sound v := by
  have hat := h.running r hrunning
  have hbase : Base w := h.toBase
  unfold At at hat
  cases e with
  | call request => cases hstep
  | register generation => cases hstep
  | crash =>
    obtain rfl := Option.some.inj hstep
    refine hbase.finish fun hreused => ?_
    cases hstage : r.stage with
    | admitted => exact ⟨by simpa [hstage] using hat, .inl rfl⟩
    | looking journal prior => simp only [hstage] at hat; exact absurd hreused hat.2.2.2
    | settling journal operation => simp only [hstage] at hat; exact absurd hreused hat.2
    | checking journal input => simp only [hstage] at hat; exact absurd hreused hat.2.2
    | intending journal operation input => simp only [hstage] at hat; exact absurd hreused hat.2.2
    | requesting journal operation input => simp only [hstage] at hat; exact absurd hreused hat.2.2
  | read readable =>
    simp only [advance] at hstep
    split at hstep
    · rename_i hstage
      rw [hstage] at hat
      exact Option.some.inj hstep ▸ sound_read hbase hat
    · cases hstep
  | look page now =>
    simp only [advance] at hstep
    split at hstep
    · rename_i hstage
      rw [hstage] at hat
      obtain ⟨hfile, hmem, hopen, hown⟩ := hat
      exact Option.some.inj hstep ▸ sound_look hbase hfile hmem hopen hown
    · cases hstep
  | check failure now =>
    simp only [advance] at hstep
    split at hstep
    · rename_i hstage
      rw [hstage] at hat
      obtain ⟨hfresh, hid, hown⟩ := hat
      exact Option.some.inj hstep ▸ sound_check hbase hfresh hid hown
    · cases hstep
  | write outcome =>
    simp only [advance] at hstep
    split at hstep
    · rename_i hstage
      rw [hstage] at hat
      obtain ⟨hamends, hown⟩ := hat
      exact Option.some.inj hstep ▸ sound_write hbase hamends hown fun hwritten =>
        hwritten.done hown
    · rename_i hstage
      rw [hstage] at hat
      obtain ⟨hamends, hunsent, hown⟩ := hat
      exact Option.some.inj hstep ▸ sound_write hbase hamends hown fun hwritten =>
        hwritten.move ⟨rfl, hunsent, hown⟩
    · cases hstep
  | steer answer now =>
    simp only [advance] at hstep
    split at hstep
    · rename_i hstage
      rw [hstage] at hat
      obtain ⟨hfile, hunsent, hown⟩ := hat
      exact Option.some.inj hstep ▸ sound_steer hbase hfile hunsent hown
    · cases hstep

theorem sound_step (h : Sound w) (hstep : step jsonBytes w e = some v) : Sound v := by
  cases e with
  | call request =>
    simp only [step] at hstep
    split at hstep
    · rw [← Option.some.inj hstep]
      unfold call
      dsimp only
      split
      · exact h.toBase.move rfl
      · exact h.toBase.finish fun _ => ⟨rfl, .inr ⟨_, rfl⟩⟩
    · cases hstep
  | register generation =>
    obtain rfl := Option.some.inj hstep
    exact ⟨⟨h.good, h.recorded, h.once, h.refused⟩, h.running⟩
  | read _ | look _ _ | check _ _ | write _ | steer _ _ | crash =>
    obtain ⟨r, hrunning, hadvance⟩ := Option.bind_eq_some_iff.mp hstep
    exact sound_advance h hrunning hadvance

theorem rows_of_file (hfile : w.file = some journal) : w.rows = journal.operations := by
  rw [World.rows, hfile]
  rfl

theorem write_rows (hamends : Amends w.evidence w.file next)
    (hafter : ∀ u : World, (after u).file = u.file) (hrow : row ∈ w.rows)
    (hphase : row.phase = .submitted) : row ∈ (write jsonBytes w r next outcome after).rows := by
  have hnext : row ∈ next.operations := by
    cases hfile : w.file with
    | none => simp [World.rows, hfile] at hrow
    | some journal =>
      rw [rows_of_file hfile] at hrow
      exact (hamends.keeps journal hfile).2.2 row hrow hphase
  unfold write
  split
  · exact hrow
  · cases outcome with
    | landed => rw [rows_of_file (hafter _)]; exact hnext
    | thrown => exact hnext
    | refused => exact hrow

/-- No step of a call changes a submitted operation. -/
theorem advance_rows (h : Sound w) (hrunning : w.running = some r)
    (hstep : advance jsonBytes w r e = some v) (hrow : row ∈ w.rows)
    (hphase : row.phase = .submitted) : row ∈ v.rows := by
  have hat := h.running r hrunning
  unfold At at hat
  cases e with
  | call request => cases hstep
  | register generation => cases hstep
  | crash =>
    obtain rfl := Option.some.inj hstep
    exact hrow
  | read readable =>
    simp only [advance] at hstep
    split at hstep
    · rw [← Option.some.inj hstep]
      have hfile : (read w r readable).file = w.file := by
        unfold read
        dsimp only
        repeat' split
        all_goals rfl
      rwa [World.rows, hfile]
    · cases hstep
  | look page now =>
    simp only [advance] at hstep
    split at hstep
    · rw [← Option.some.inj hstep]
      exact hrow
    · cases hstep
  | check failure now =>
    simp only [advance] at hstep
    split at hstep
    · rw [← Option.some.inj hstep]
      cases failure <;> exact hrow
    · cases hstep
  | write outcome =>
    simp only [advance] at hstep
    split at hstep
    · rename_i hstage
      rw [hstage] at hat
      exact Option.some.inj hstep ▸ write_rows hat.1 (fun _ => rfl) hrow hphase
    · rename_i hstage
      rw [hstage] at hat
      exact Option.some.inj hstep ▸ write_rows hat.1 (fun _ => rfl) hrow hphase
    · cases hstep
  | steer answer now =>
    simp only [advance] at hstep
    split at hstep
    · rw [← Option.some.inj hstep]
      exact hrow
    · cases hstep

theorem step_rows (h : Sound w) (hstep : step jsonBytes w e = some v)
    (hrow : row ∈ w.rows) (hphase : row.phase = .submitted) : row ∈ v.rows := by
  cases e with
  | call request =>
    simp only [step] at hstep
    split at hstep
    · rw [← Option.some.inj hstep]
      unfold call
      dsimp only
      split <;> exact hrow
    · cases hstep
  | register generation =>
    obtain rfl := Option.some.inj hstep
    exact hrow
  | read _ | look _ _ | check _ _ | write _ | steer _ _ | crash =>
    obtain ⟨r, hrunning, hadvance⟩ := Option.bind_eq_some_iff.mp hstep
    exact advance_rows h hrunning hadvance hrow hphase

theorem sound_start {session : Session} : Sound { session } where
  good := by
    intro journal hfile
    cases hfile
  recorded := by
    intro sent hsent
    cases hsent
  once := List.nodup_nil
  refused := by
    intro c hc
    cases hc
  running := by
    intro r hr
    cases hr

end

section
variable {jsonBytes : SteeringJournal → Nat} {session : Session} {es : List Event} {w : World}

/-- In every run of steering calls, each operation of a registration is requested at most once, a
reused id is refused with the journal as it was, and a submitted receipt rests on the provider's
evidence and stays as it is for good. -/
theorem steering_submits_once (hrun : run (step jsonBytes) { session } es = some w) :
    (w.sent.map TurnSteer.key).Nodup ∧
    (∀ c ∈ w.ended, Reused c.before c.request →
      c.after = c.before ∧ (c.reply = .crashed ∨ ∃ code, c.reply = .failure code)) ∧
    ∀ row ∈ w.rows, row.receipt.state = .submitted →
      Evident w.evidence row.receipt ∧
      ∀ later v, run (step jsonBytes) w later = some v → row ∈ v.rows := by
  have h : Sound w := run_invariant (fun _ _ _ hs ht => sound_step hs ht) hrun sound_start
  refine ⟨h.once, h.refused, ?_⟩
  intro row hrow hstate
  obtain ⟨journal, hfile, hmem⟩ : ∃ journal, w.file = some journal ∧ row ∈ journal.operations := by
    cases hfile : w.file with
    | none => simp [World.rows, hfile] at hrow
    | some journal => exact ⟨journal, rfl, rows_of_file hfile ▸ hrow⟩
  have hsettled := (h.good journal hfile).settled row hmem
  have hphase := hsettled.state.mp hstate
  refine ⟨hsettled.evident hphase, fun later v hlater => ?_⟩
  have hkeeps : ∀ s e t, Sound s ∧ row ∈ s.rows → step jsonBytes s e = some t →
      Sound t ∧ row ∈ t.rows := fun s e t hs ht =>
    ⟨sound_step hs.1 ht, step_rows hs.1 ht hs.2 hphase⟩
  exact (run_invariant hkeeps hlater ⟨h, hrow⟩).2

/-- In every run each operation of the journal stands in it once, and whatever was requested of the
provider stands there: no request is made that a restart would not find. -/
theorem requests_are_journalled (hrun : run (step jsonBytes) { session } es = some w) :
    ∀ sent ∈ w.sent, ∃ journal, w.file = some journal ∧ journal.ids.Nodup ∧
      sent.registration = journal.registration ∧ sent.operationId ∈ journal.ids := by
  have h : Sound w := run_invariant (fun _ _ _ hs ht => sound_step hs ht) hrun sound_start
  intro sent hsent
  obtain ⟨journal, hfile, hregistration, hid⟩ := h.recorded sent hsent
  exact ⟨journal, hfile, (h.good journal hfile).unique, hregistration, hid⟩

def exampleSession : Session := ⟨"registration-1", "thread-1"⟩

def exampleInput : SteeringInput where
  target := ⟨"host", .codex, "worker", "thread-1"⟩
  registrationGeneration := "registration-1"
  operationId := "operation-1"
  generation := "generation-1"
  expectedTurnId := "turn-1"
  body := "Focus on the first test."

/-- The turn that holds the client's message of the example. -/
def exampleTurn : NativeTurn := ⟨"turn-1", [⟨"userMessage", some "steer:operation-1"⟩]⟩

/-- The answer is lost and the process ends; a read settles the operation from the history, the
same request repeats its receipt, and another caller is refused. -/
def exampleRun : List Event :=
  [.call (.steer (.cli "host") exampleInput), .read true, .check none 1, .write .landed,
   .steer none 2, .crash,
   .call (.read (.cli "host") exampleInput.toSteeringSelector), .read true,
   .look (some [exampleTurn]) 3, .write .landed,
   .call (.steer (.cli "host") exampleInput), .read true,
   .call (.steer (.cli "elsewhere") exampleInput), .read true]

theorem exampleRun_submits_once :
    ∃ w, run (step fun _ => 0) { session := exampleSession } exampleRun = some w ∧
    w.sent.length = 1 ∧ w.ended.length = 4 ∧ (w.sent.map TurnSteer.key).Nodup ∧
    ∀ row ∈ w.rows, row.receipt.state = .submitted →
      Evident w.evidence row.receipt ∧
      ∀ later v, run (step fun _ => 0) w later = some v → row ∈ v.rows := by
  have hrun : ((run (step fun _ => 0) { session := exampleSession } exampleRun).any fun w =>
      decide (w.sent.length = 1 ∧ w.ended.length = 4)) = true := by decide
  obtain ⟨w, hw, hcounts⟩ := (Option.any_eq_true _ _).mp hrun
  obtain ⟨hsent, hended⟩ := of_decide_eq_true hcounts
  obtain ⟨honce, _, hsettled⟩ := steering_submits_once hw
  exact ⟨w, hw, hsent, hended, honce, hsettled⟩

theorem exampleRun_journalled :
    ∃ w, run (step fun _ => 0) { session := exampleSession } exampleRun = some w ∧
      ∃ sent ∈ w.sent, ∃ journal, w.file = some journal ∧ journal.ids.Nodup ∧
        sent.registration = journal.registration ∧ sent.operationId ∈ journal.ids := by
  have hrun : ((run (step fun _ => 0) { session := exampleSession } exampleRun).any fun w =>
      decide (w.sent ≠ [])) = true := by decide
  obtain ⟨w, hw, hsome⟩ := (Option.any_eq_true _ _).mp hrun
  obtain ⟨sent, hsent⟩ := List.exists_mem_of_ne_nil _ (of_decide_eq_true hsome)
  exact ⟨w, hw, sent, hsent, requests_are_journalled hw sent hsent⟩

end

end Ccmux.Steering
