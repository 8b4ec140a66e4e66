import Rcllite.MonitorDecoding

/-! Departed participants. A departure clears all three maps, endpoints clear
themselves; only an announcement that is processed after the departure can
bring the participant back. -/
namespace Rcllite

variable {info log : Members} {gid : info.Val → Guid}

/-- None of the maps holds an entry owned by `g`. -/
def Monitor.Forgets (m : Monitor info log) (g : Guid) : Prop :=
  m.participants.find? g = none ∧ m.discovery.find? g = none ∧
    ∀ k e, m.endpoints.find? k = some e → e.participant ≠ g

/-- `s` is the last participant sample for `g`, and `later` is what was
processed after it. -/
def LastParticipant (samples : List MonitorSample) (g : Guid) (s : ParticipantSample)
    (later : List MonitorSample) : Prop :=
  s.key = g ∧ (∃ earlier, samples = earlier ++ .participant s :: later) ∧
    ∀ s', .participant s' ∈ later → s'.key ≠ g

/-- Of every endpoint of `g` that was ever announced, the last sample says that
it is gone. -/
def EndpointsGone (samples : List MonitorSample) (g : Guid) : Prop :=
  ∀ writer s, .endpoint writer s ∈ samples → s.alive = true → s.participantKey = g →
    ∃ earlier later writer' s', samples = earlier ++ .endpoint writer' s' :: later ∧
      s'.key = s.key ∧ s'.alive = false ∧ ∀ w t, .endpoint w t ∈ later → t.key ≠ s.key

/-- A decodable announcement under the guid `g`. -/
def Announces (gid : info.Val → Guid) (g : Guid) (x : MonitorSample) : Prop :=
  ∃ payload v r, x = .discovery payload ∧ info.decode true payload = .ok (v, r) ∧ gid v = g

namespace Monitor

theorem processAll_cons {x : MonitorSample} {xs : List MonitorSample} {m m' : Monitor info log}
    (h : processAll gid (x :: xs) m = (m', none)) :
    ∃ m₁, m.process gid x = .ok m₁ ∧ processAll gid xs m₁ = (m', none) := by
  simp only [processAll] at h
  cases hx : m.process gid x with
  | error e => simp [hx] at h
  | ok m₁ =>
    simp only [hx] at h
    exact ⟨m₁, rfl, h⟩

theorem processAll_split {earlier later : List MonitorSample} {x : MonitorSample} {m m' : Monitor info log}
    (h : processAll gid (earlier ++ x :: later) m = (m', none)) :
    ∃ m₁ m₂, processAll gid earlier m = (m₁, none) ∧ m₁.process gid x = .ok m₂ ∧
      processAll gid later m₂ = (m', none) := by
  rw [processAll_append] at h
  rcases he : processAll gid earlier m with ⟨m₁, _ | e⟩
  · rw [he] at h
    obtain ⟨m₂, hx, hlater⟩ := processAll_cons h
    exact ⟨m₁, m₂, rfl, hx, hlater⟩
  · simp [he] at h

/-- What every processed sample preserves holds at the end. -/
theorem processAll_invariant (P : Monitor info log → Prop) {xs : List MonitorSample}
    (hstep : ∀ x ∈ xs, ∀ m m', m.process gid x = .ok m' → P m → P m') {m m' : Monitor info log}
    (h : processAll gid xs m = (m', none)) (hm : P m) : P m' := by
  induction xs generalizing m with
  | nil =>
    cases h
    exact hm
  | cons x xs ih =>
    obtain ⟨m₂, hx, hrest⟩ := processAll_cons h
    exact ih (fun y hy => hstep y (List.mem_cons_of_mem x hy)) hrest
      (hstep x List.mem_cons_self m m₂ hx hm)

theorem recordLog_maps (msg : log.Val) (m : Monitor info log) :
    (m.recordLog msg).participants = m.participants ∧ (m.recordLog msg).endpoints = m.endpoints ∧
      (m.recordLog msg).discovery = m.discovery := by
  simp only [recordLog, and_self]

section Step
variable {m m' : Monitor info log}

/-- The four ways a sample is processed without an exception. -/
theorem process_ok {x : MonitorSample} (h : m.process gid x = .ok m') :
    (∃ s, x = .participant s ∧ m' = m.onParticipant s) ∨
    (∃ writer s, x = .endpoint writer s ∧ m' = m.onEndpoint writer s) ∨
    (∃ payload v r, x = .discovery payload ∧ info.decode true payload = .ok (v, r) ∧
      m' = m.recordDiscovery gid v) ∨
    (¬ (∃ g, Announces gid g x) ∧ (∀ s, x ≠ .participant s) ∧
      m'.participants = m.participants ∧ m'.endpoints = m.endpoints ∧ m'.discovery = m.discovery) := by
  cases x with
  | participant s => exact Or.inl ⟨s, rfl, (Except.ok.inj h).symm⟩
  | endpoint writer s => exact Or.inr (Or.inl ⟨writer, s, rfl, (Except.ok.inj h).symm⟩)
  | discovery payload =>
    right; right
    simp only [process, onDiscovery] at h
    cases hd : info.decode true payload with
    | ok vr =>
      obtain ⟨v, r⟩ := vr
      rw [hd] at h
      exact Or.inl ⟨payload, v, r, rfl, hd, (Except.ok.inj h).symm⟩
    | error e =>
      rw [hd] at h
      cases e with
      | returnFalse =>
        -- the callback returns early and records nothing
        cases h
        refine Or.inr ⟨?_, ?_, rfl, rfl, rfl⟩
        · rintro ⟨g, payload', v, r, heq, hok, -⟩
          cases heq
          rw [hd] at hok
          cases hok
        · intro s hs
          cases hs
      | error msg => cases h
      | outOfBounds => cases h
  | rosout payload =>
    right; right; right
    refine ⟨?_, ?_, ?_⟩
    · rintro ⟨g, payload', v, r, heq, -⟩
      cases heq
    · intro s hs
      cases hs
    · simp only [process, onRosout] at h
      cases hd : log.decode true payload with
      | ok vr =>
        rw [hd] at h
        rw [← Except.ok.inj h]
        exact recordLog_maps vr.1 m
      | error e =>
        rw [hd] at h
        cases e with
        | returnFalse =>
          cases h
          exact ⟨rfl, rfl, rfl⟩
        | error msg => cases h
        | outOfBounds => cases h

variable {g : Guid} {x : MonitorSample} (h : m.process gid x = .ok m')
include h

theorem process_participants (hx : ∀ s, x = .participant s → s.key ≠ g) :
    m'.participants.find? g = m.participants.find? g := by
  rcases process_ok h with ⟨s, rfl, rfl⟩ | ⟨writer, s, rfl, rfl⟩ | ⟨payload, v, r, rfl, hd, rfl⟩ |
    ⟨-, -, hp, -, -⟩
  · have hne : g ≠ s.key := (hx s rfl).symm
    unfold onParticipant
    split_ifs
    · exact AssocMap.find?_insert_ne _ _ hne
    · exact AssocMap.find?_erase_ne _ hne
  · unfold onEndpoint
    split_ifs <;> rfl
  · rfl
  · rw [hp]

/-- Short of a departure of `g`, its announcement appears exactly when one is
processed or was there. -/
theorem process_discovery (hx : ∀ s, x = .participant s → s.key ≠ g) :
    m'.discovery.find? g = none ↔ m.discovery.find? g = none ∧ ¬ Announces gid g x := by
  rcases process_ok h with ⟨s, rfl, rfl⟩ | ⟨writer, s, rfl, rfl⟩ | ⟨payload, v, r, rfl, hd, rfl⟩ |
    ⟨hna, -, -, -, hdisc⟩
  · have hna : ¬ Announces gid g (.participant s) := by
      rintro ⟨payload, v, r, heq, -⟩
      cases heq
    have hne : g ≠ s.key := (hx s rfl).symm
    unfold onParticipant
    split_ifs
    · simp [hna]
    · simp [hna, AssocMap.find?_erase_ne _ hne]
  · have hna : ¬ Announces gid g (.endpoint writer s) := by
      rintro ⟨payload, v, r, heq, -⟩
      cases heq
    unfold onEndpoint
    split_ifs <;> simp [hna]
  · by_cases hg : gid v = g
    · have ha : Announces gid g (.discovery payload) := ⟨payload, v, r, rfl, hd, hg⟩
      simp [recordDiscovery, hg, ha]
    · have hna : ¬ Announces gid g (.discovery payload) := by
        rintro ⟨payload', v', r', heq, hd', hg'⟩
        cases heq
        rw [hd] at hd'
        cases hd'
        exact hg hg'
      simp [recordDiscovery, AssocMap.find?_insert_ne _ _ (Ne.symm hg), hna]
  · rw [hdisc]
    have hno : ¬ Announces gid g x := fun ha => hna ⟨g, ha⟩
    simp [hno]

/-- An endpoint entry was there before, or has just been announced. -/
theorem process_endpoints {k : Guid} {e : EndpointInfo} (he : m'.endpoints.find? k = some e) :
    m.endpoints.find? k = some e ∨ ∃ writer s, x = .endpoint writer s ∧ s.alive = true ∧ s.key = k ∧
      s.participantKey = e.participant := by
  rcases process_ok h with ⟨s, rfl, rfl⟩ | ⟨writer, s, rfl, rfl⟩ | ⟨payload, v, r, rfl, hd, rfl⟩ |
    ⟨-, -, -, hend, -⟩
  · left
    unfold onParticipant at he
    split_ifs at he
    · exact he
    · exact ((AssocMap.find?_eraseIf _ _ k e).mp he).1
  · unfold onEndpoint at he
    by_cases hk : k = s.key
    · subst hk
      split_ifs at he with halive
      · rw [AssocMap.find?_insert_self] at he
        cases he
        exact Or.inr ⟨writer, s, rfl, halive, rfl, rfl⟩
      · rw [AssocMap.find?_erase_self] at he
        cases he
    · left
      split_ifs at he
      · rwa [AssocMap.find?_insert_ne _ _ hk] at he
      · rwa [AssocMap.find?_erase_ne _ hk] at he
  · exact Or.inl he
  · rw [hend] at he
    exact Or.inl he

end Step

/-- A departure clears all three maps at once. -/
theorem onParticipant_forgets (s : ParticipantSample) (hs : s.alive = false) (m : Monitor info log) :
    (m.onParticipant s).Forgets s.key := by
  unfold onParticipant
  rw [if_neg (by simp [hs])]
  refine ⟨AssocMap.find?_erase_self _ _, AssocMap.find?_erase_self _ _, ?_⟩
  intro k e he
  have := ((AssocMap.find?_eraseIf _ _ k e).mp he).2
  simpa using this

variable {samples : List MonitorSample} {m' : Monitor info log}

theorem endpoints_announced (h : processAll gid samples .new = (m', none)) {k : Guid} {e : EndpointInfo}
    (he : m'.endpoints.find? k = some e) : ∃ writer s, .endpoint writer s ∈ samples ∧ s.alive = true ∧
      s.key = k ∧ s.participantKey = e.participant := by
  revert k e
  refine processAll_invariant (fun m => ∀ {k e}, m.endpoints.find? k = some e → ∃ writer s,
    .endpoint writer s ∈ samples ∧ s.alive = true ∧ s.key = k ∧ s.participantKey = e.participant) ?_ h ?_
  · intro x hx m m' hstep hm k e he
    rcases process_endpoints hstep he with hold | ⟨writer, s, rfl, hrest⟩
    · exact hm hold
    · exact ⟨writer, s, hx, hrest⟩
  · intro k e he
    cases he

/-- An endpoint whose last sample says that it is gone has no entry. -/
theorem endpoints_gone {earlier later : List MonitorSample} {writer : Bool} {s : EndpointSample}
    (h : processAll gid (earlier ++ .endpoint writer s :: later) .new = (m', none)) (hs : s.alive = false)
    (hlast : ∀ w t, .endpoint w t ∈ later → t.key ≠ s.key) : m'.endpoints.find? s.key = none := by
  obtain ⟨m₁, m₂, -, hx, hlater⟩ := processAll_split h
  refine processAll_invariant (fun m => m.endpoints.find? s.key = none) ?_ hlater ?_
  · intro x hx m m' hstep hm
    apply Option.eq_none_iff_forall_ne_some.mpr
    intro e he
    rcases process_endpoints hstep he with hold | ⟨w, t, rfl, -, hk, -⟩
    · rw [hm] at hold
      cases hold
    · exact hlast w t hx hk
  · cases hx
    unfold onEndpoint
    rw [if_neg (by simp [hs])]
    exact AssocMap.find?_erase_self _ _

/-- From a state that knows nothing of `g` on, and as long as no participant
sample for `g` comes, the discovery map stays clear of `g` exactly when nobody
announces it. -/
theorem processAll_discovery {g : Guid} {later : List MonitorSample} {m : Monitor info log}
    (h : processAll gid later m = (m', none)) (hno : ∀ s, .participant s ∈ later → s.key ≠ g) :
    m'.discovery.find? g = none ↔ m.discovery.find? g = none ∧ ∀ x ∈ later, ¬ Announces gid g x := by
  induction later generalizing m with
  | nil =>
    cases h
    simp
  | cons x later ih =>
    obtain ⟨m₂, hx, hrest⟩ := processAll_cons h
    have hxg : ∀ s, x = .participant s → s.key ≠ g := fun s hs => hno s (hs ▸ List.mem_cons_self)
    rw [ih hrest (fun s hs => hno s (List.mem_cons_of_mem x hs)), process_discovery hx hxg,
      List.forall_mem_cons, and_assoc]

end Monitor

/-- After a run in which the participant `g` and all its endpoints have
departed, the monitor has forgotten `g` exactly when no announcement of `g` was
processed after the departure. -/
theorem departed_participant_forgotten_iff (polls : List Poll) (m' : Monitor info log) (g : Guid)
    (s : ParticipantSample) (later : List MonitorSample) (hrun : Monitor.run gid polls .new = (m', none))
    (hlast : LastParticipant (polls.flatMap Poll.samples) g s later) (hgone : s.alive = false)
    (hends : EndpointsGone (polls.flatMap Poll.samples) g) :
    m'.Forgets g ↔ ∀ x ∈ later, ¬ Announces gid g x := by
  rw [Monitor.run_eq] at hrun
  obtain ⟨rfl, ⟨earlier, hsplit⟩, hno⟩ := hlast
  -- what the departure itself leaves behind
  have hdep := hrun
  rw [hsplit] at hdep
  obtain ⟨m₁, m₂, -, hx, hlater⟩ := Monitor.processAll_split hdep
  cases hx
  obtain ⟨hpart, hdisc, -⟩ := Monitor.onParticipant_forgets s hgone m₁
  have hpart' : m'.participants.find? s.key = none := by
    refine Monitor.processAll_invariant (fun m => m.participants.find? s.key = none) ?_ hlater hpart
    intro x hmem m m' hstep hm
    rw [Monitor.process_participants hstep (fun t ht => hno t (ht ▸ hmem)), hm]
  have hend' : ∀ k e, m'.endpoints.find? k = some e → e.participant ≠ s.key := by
    intro k e he hown
    obtain ⟨writer, t, hmem, halive, hk, hp⟩ := Monitor.endpoints_announced hrun he
    obtain ⟨before, after, writer', t', hcut, hkey, hdead, hafter⟩ :=
      hends writer t hmem halive (hp.trans hown)
    have hnone := Monitor.endpoints_gone (hcut ▸ hrun) hdead (fun w u hu => hkey ▸ hafter w u hu)
    rw [hkey, hk, he] at hnone
    cases hnone
  have hdisc' := Monitor.processAll_discovery hlater hno
  constructor
  · rintro ⟨-, hnone, -⟩
    exact (hdisc'.mp hnone).2
  · intro hquiet
    exact ⟨hpart', hdisc'.mpr ⟨hdisc, hquiet⟩, hend'⟩

/-- The guid of sixteen zero bytes. -/
def zeroGuid : Guid := List.Vector.replicate 16 0

/-- Its announcement, as the codec writes it. -/
def zeroAnnouncement : List UInt8 :=
  participantEntitiesInfoSchema.encode participantEntitiesInfoSchema.zero

/-- The participant comes, is announced and goes. -/
def orderlyPolls : List Poll :=
  [.participants [⟨zeroGuid, true, none⟩], .discovery [⟨zeroAnnouncement, true⟩],
    .participants [⟨zeroGuid, false, none⟩]]

theorem departed_participant_forgotten_orderly :
    ∃ m' : Monitor participantEntitiesInfoSchema .nil,
      Monitor.run gidKey orderlyPolls .new = (m', none) ∧ m'.Forgets zeroGuid := by
  refine ⟨_, Monitor.run_eq gidKey _ _, ?_⟩
  refine (departed_participant_forgotten_iff orderlyPolls _ zeroGuid ⟨zeroGuid, false, none⟩ []
    (Monitor.run_eq gidKey _ _) ⟨rfl, ⟨[_, _], rfl⟩, nofun⟩ rfl ?_).mpr nofun
  intro writer s hs
  simp [orderlyPolls, Poll.samples, validPayloads] at hs

/-- The announcement is processed after the departure, and stays. -/
theorem departed_participant_announced_late :
    ∃ m' : Monitor participantEntitiesInfoSchema .nil, Monitor.run gidKey
        [.participants [⟨zeroGuid, true, none⟩], .participants [⟨zeroGuid, false, none⟩],
          .discovery [⟨zeroAnnouncement, true⟩]] .new = (m', none) ∧
      m'.participants.find? zeroGuid = none ∧ m'.endpoints.entries = [] ∧ ¬ m'.Forgets zeroGuid := by
  refine ⟨_, Monitor.run_eq gidKey _ _, rfl, rfl, ?_⟩
  rintro ⟨-, hdisc, -⟩
  cases hdisc

end Rcllite
