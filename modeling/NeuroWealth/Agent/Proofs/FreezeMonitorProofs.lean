import NeuroWealth.Agent.FreezeMonitor

/-!
# One response to a freeze

The monitor's flag is the last observation, so of a freeze episode only the first poll responds.
-/

namespace NeuroWealth.FreezeMonitor

/-- Whether a poll observes a freeze, if it observes anything. -/
def Poll.observed (poll : Poll) : Option Bool := (fetchIssuerFlags poll).map isFreezeActive

/-- The polls of a freeze episode so far: the last observation before was clear, if there was one,
    the first poll observes the freeze, and no later one observes it lifted. -/
structure Episode where
  before : List Poll
  first : Poll
  rest : List Poll
  starts : (before.filterMap Poll.observed).getLast? ≠ some true
  frozen : first.observed = some true
  lasts : ∀ poll ∈ rest, poll.observed ≠ some false

/-- What the polls of an episode have done. -/
def Episode.responses (episode : Episode) (config : Config)
    (alertChannels : List FreezeAlertChannel) : List Response :=
  FreezeMonitor.responses config alertChannels (monitor config alertChannels episode.before)
    (episode.first :: episode.rest)

/-- Every poll of the episode that observes the freeze attempts the pause, until an attempt has
    succeeded. -/
def Episode.Persists (episode : Episode) (config : Config)
    (alertChannels : List FreezeAlertChannel) : Prop :=
  ∀ earlier poll response later,
    (episode.first :: episode.rest).zip (episode.responses config alertChannels) =
      earlier ++ (poll, response) :: later →
    poll.observed = some true → (∀ done ∈ earlier, done.2.attempt ≠ some (.result true)) →
    response.attempt ≠ none

/-! ## The flag follows the last observation -/

section

variable {config : Config} {alertChannels : List FreezeAlertChannel} {m : Monitor} {poll : Poll}
  {polls : List Poll}

/-- A poll that observes something sets the flag to it; one that fails leaves the flag. -/
theorem check_freezeActive : (check config alertChannels m poll).1.freezeActive =
    poll.observed.getD m.freezeActive := by
  unfold check Poll.observed
  cases fetchIssuerFlags poll with
  | none => rfl
  | some flags =>
    cases hfrozen : isFreezeActive flags <;> cases hactive : m.freezeActive <;>
      simp [hfrozen]

/-- Only a poll that observes a freeze while the flag is clear does anything. -/
theorem check_silent (h : m.freezeActive = true ∨ poll.observed ≠ some true) :
    (check config alertChannels m poll).2 = .silent := by
  unfold check
  unfold Poll.observed at h
  cases hfetch : fetchIssuerFlags poll with
  | none => rfl
  | some flags =>
    have hnew : ¬ (isFreezeActive flags = true ∧ m.freezeActive = false) := by
      rintro ⟨hfrozen, hclear⟩
      simp [hfetch, hfrozen, hclear] at h
    simp only [Bool.and_eq_true, Bool.not_eq_true']
    rw [if_neg hnew]
    split_ifs <;> rfl

theorem check_new (hclear : m.freezeActive = false) (hfrozen : poll.observed = some true) :
    ∃ flags, fetchIssuerFlags poll = some flags ∧ (check config alertChannels m poll).2 =
      handleFreezeDetected config alertChannels flags poll := by
  obtain ⟨flags, hfetch, hactive⟩ := Option.map_eq_some_iff.mp hfrozen
  refine ⟨flags, hfetch, ?_⟩
  simp [check, hfetch, hactive, hclear]

/-- The flag is the last observation. -/
theorem monitor_freezeActive : (monitor config alertChannels polls).freezeActive =
    ((polls.filterMap Poll.observed).getLast?).getD false := by
  induction polls using List.reverseRecOn with
  | nil => rfl
  | append_singleton polls poll ih =>
    rw [monitor, List.foldl_append, List.foldl_cons, List.foldl_nil, check_freezeActive,
      List.filterMap_append]
    cases hobserved : poll.observed with
    | none =>
      simp only [Option.getD_none, List.filterMap_cons, hobserved, List.filterMap_nil,
        List.append_nil]
      exact ih
    | some frozen => simp [hobserved]

/-- While the flag is set and no poll observes a lifted freeze, the polls do nothing. -/
theorem responses_active (hactive : m.freezeActive = true)
    (hlasts : ∀ poll ∈ polls, poll.observed ≠ some false) :
    responses config alertChannels m polls = List.replicate polls.length .silent := by
  induction polls generalizing m with
  | nil => rfl
  | cons poll rest ih =>
    have hfirst : poll.observed ≠ some false := hlasts poll List.mem_cons_self
    have hnext : (check config alertChannels m poll).1.freezeActive = true := by
      rw [check_freezeActive, hactive]
      cases hobserved : poll.observed with
      | none => rfl
      | some frozen =>
        cases frozen with
        | true => rfl
        | false => exact absurd hobserved hfirst
    have hrest := ih hnext fun other hother => hlasts other (List.mem_cons_of_mem _ hother)
    rw [responses, check_silent (.inl hactive), hrest]
    rfl

end

/-! ## One response an episode -/

/-- The first poll of an episode responds; no other poll does anything. -/
theorem Episode.responses_eq (episode : Episode) (config : Config)
    (alertChannels : List FreezeAlertChannel) : ∃ flags, fetchIssuerFlags episode.first = some flags ∧
    episode.responses config alertChannels =
      handleFreezeDetected config alertChannels flags episode.first ::
        List.replicate episode.rest.length .silent := by
  have hclear : (monitor config alertChannels episode.before).freezeActive = false := by
    rw [monitor_freezeActive]
    cases hlast : (episode.before.filterMap Poll.observed).getLast? with
    | none => rfl
    | some frozen =>
      cases frozen with
      | true => exact absurd hlast episode.starts
      | false => rfl
  obtain ⟨flags, hfetch, hresponse⟩ :=
    check_new hclear episode.frozen
  refine ⟨flags, hfetch, ?_⟩
  have hactive : (check config alertChannels (monitor config alertChannels episode.before)
      episode.first).1.freezeActive = true := by
    rw [check_freezeActive, episode.frozen]
    rfl
  rw [responses, FreezeMonitor.responses, hresponse, responses_active hactive episode.lasts]

/-- In an episode whose first attempt to pause the vault returns a result, that attempt is the only
    one, and its poll dispatches to every channel. -/
theorem one_attempt_per_episode (episode : Episode) (config : Config)
    (alertChannels : List FreezeAlertChannel) (hresult : episode.first.pause ≠ .throws) :
    ∃ response others, episode.responses config alertChannels = response :: others ∧
      response.attempt = some episode.first.pause ∧ (∀ other ∈ others, other.attempt = none) ∧
      ∀ channel ∈ alertChannels, channel ∈ response.dispatched.map Prod.fst := by
  obtain ⟨flags, -, hresponses⟩ :=
    episode.responses_eq config alertChannels
  refine ⟨_, _, hresponses, ?_⟩
  have hothers : ∀ other ∈ List.replicate episode.rest.length Response.silent,
      other.attempt = none := by
    intro other hother
    rw [List.eq_of_mem_replicate hother]
    rfl
  cases hpause : episode.first.pause with
  | throws => exact absurd hpause hresult
  | result success =>
    refine ⟨by simp [handleFreezeDetected, hpause], hothers, ?_⟩
    intro channel hchannel
    simp [handleFreezeDetected, hpause, hchannel]

namespace Sample

def config : Config := ⟨"GA5Z", "CVAULT"⟩

/-- A poll that finds the issuer able to revoke trustlines. -/
def poll (pause : PauseOutcome) : Poll :=
  ⟨some ⟨none, some true, none⟩, "2026-01-01T00:00:00.000Z", pause, true, fun _ => true⟩

/-- Two polls observe the freeze; the first pause fails. -/
def episode : Episode where
  before := []
  first := poll (.result false)
  rest := [poll (.result true)]
  starts := by simp
  frozen := rfl
  lasts := by
    intro poll hpoll
    rw [List.mem_singleton.mp hpoll]
    decide

theorem one_attempt : ∃ response others,
    episode.responses config [.email, .slack] = response :: others ∧
      response.attempt = some (.result false) ∧ (∀ other ∈ others, other.attempt = none) ∧
      ∀ channel ∈ [FreezeAlertChannel.email, .slack], channel ∈ response.dispatched.map Prod.fst :=
  one_attempt_per_episode episode config [.email, .slack] (by decide)

/-- The second poll does not attempt the pause again, although the first attempt failed. -/
theorem failed_pause_not_repeated : ¬ episode.Persists config [.email, .slack] := by
  intro h
  have hlast := h [(poll (.result false), _)] (poll (.result true)) .silent [] rfl rfl
  have hfailed : ∀ done ∈ [(poll (.result false), handleFreezeDetected config [.email, .slack]
      ⟨false, true, false⟩ (poll (.result false)))],
      done.2.attempt ≠ some (.result true) := by
    intro done hdone
    rw [List.mem_singleton.mp hdone]
    decide
  exact hlast hfailed rfl

end Sample

end NeuroWealth.FreezeMonitor
