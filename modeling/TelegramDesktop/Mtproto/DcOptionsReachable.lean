import TelegramDesktop.Mtproto.DcOptions

namespace TelegramDesktop.Mtproto.DcOptions
open Base DataStream

variable {Key : Type} {rsa : RSAPublicKey Key} {d d' : DcOptions Key} {data : Data}
  {keys : PublicKeys Key} {environment : Environment} {option : Endpoint}
  {options : List Endpoint}

structure Endpoint.Valid (endpoint : Endpoint) : Prop where
  secret : validateSecret endpoint.secret = true
  ip : 1 ≤ endpoint.ip.length ∧ endpoint.ip.length ≤ 45

inductive Event
  | setFromList (options : List Endpoint)
  | addFromList (options : List Endpoint)
  | setCDNConfig (config : List CdnPublicKey)

def Event.Valid : Event → Prop
  | setFromList options | addFromList options => ∀ option ∈ options, option.Valid
  | setCDNConfig _ => True

def step (rsa : RSAPublicKey Key) (d : DcOptions Key) : Event → Option (DcOptions Key)
  | .setFromList options => setFromList d options
  | .addFromList options => addFromList d options
  | .setCDNConfig config => some (setCDNConfig rsa d config)

inductive Reachable (rsa : RSAPublicKey Key) (environment : Environment) : DcOptions Key → Prop
  | builtIn : Reachable rsa environment (constructFromBuiltIn environment)
  | step {d d' : DcOptions Key} {event : Event} (h : Reachable rsa environment d)
    (hvalid : event.Valid) (hstep : step rsa d event = some d') : Reachable rsa environment d'

/-- The list of a dc after one more option. -/
def addOption : Option (List Endpoint) → Endpoint → List Endpoint
  | some list, option => if list.any (sameAddress option) then list else list ++ [option]
  | none, option => [option]

theorem applyOneOption_fst (data : Data) (option : Endpoint) :
    (applyOneOption data option).1 = data.upsert option.id (addOption · option) := by
  rw [applyOneOption]
  cases hlist : data.get? option.id with
  | none => exact (FlatMap.upsert_new hlist (addOption · option)).symm
  | some list =>
    by_cases hany : list.any (sameAddress option) = true
    · have hsame : addOption (some list) option = list := if_pos hany
      have hupsert : data.upsert option.id (addOption · option) = data :=
        FlatMap.upsert_same hlist hsame
      rw [hupsert]
      simp only [hany, if_true]
    · have hnew : addOption (some list) option = list ++ [option] := if_neg hany
      rw [FlatMap.upsert, hlist, hnew]
      simp only [hany, if_false, Bool.false_eq_true]

/-- A list of one dc: its own endpoints, all valid, no address twice. -/
structure KeptList (dcId : DcId) (list : List Endpoint) : Prop where
  nonempty : list ≠ []
  id : ∀ endpoint ∈ list, endpoint.id = dcId
  valid : ∀ endpoint ∈ list, endpoint.Valid
  distinct : list.Pairwise fun a b => sameAddress b a = false

def KeptData (data : Data) : Prop := ∀ item ∈ data.entries, KeptList item.1 item.2

theorem KeptList.addOption {list : Option (List Endpoint)} (hvalid : option.Valid)
    (h : ∀ l, list = some l → KeptList option.id l) :
    KeptList option.id (addOption list option) := by
  cases list with
  | none =>
    refine ⟨List.cons_ne_nil _ _, ?_, ?_, List.pairwise_singleton _ _⟩
    · exact fun endpoint hmem => congrArg Endpoint.id (List.mem_singleton.mp hmem)
    · exact fun endpoint hmem => (List.mem_singleton.mp hmem) ▸ hvalid
  | some list =>
    have hlist := h list rfl
    rw [DcOptions.addOption]
    split_ifs with hany
    · exact hlist
    · have hnew : ∀ endpoint ∈ list, sameAddress option endpoint = false := by
        intro endpoint hmem
        by_contra hsame
        exact hany (List.any_eq_true.mpr ⟨endpoint, hmem, Bool.eq_true_of_not_eq_false hsame⟩)
      refine ⟨by simp, ?_, ?_, ?_⟩
      · intro endpoint hmem
        rcases List.mem_append.mp hmem with hmem | hmem
        · exact hlist.id endpoint hmem
        · exact congrArg Endpoint.id (List.mem_singleton.mp hmem)
      · intro endpoint hmem
        rcases List.mem_append.mp hmem with hmem | hmem
        · exact hlist.valid endpoint hmem
        · exact (List.mem_singleton.mp hmem) ▸ hvalid
      · apply List.pairwise_append.mpr
        refine ⟨hlist.distinct, List.pairwise_singleton _ _, fun a ha b hb => ?_⟩
        rw [List.mem_singleton.mp hb]
        exact hnew a ha

theorem KeptData.applyOneOption (h : KeptData data) (hvalid : option.Valid) :
    KeptData (applyOneOption data option).1 := by
  rw [applyOneOption_fst]
  intro item hitem
  rcases FlatMap.mem_upsert.mp hitem with hitem | rfl
  · exact h item hitem.1
  · apply KeptList.addOption hvalid
    exact fun list hlist => h _ ((data.get?_eq_some_iff _ _).mp hlist)

theorem KeptData.applyAll (h : KeptData data) (hvalid : ∀ option ∈ options, option.Valid) :
    KeptData (applyAll data options) := by
  induction options generalizing data with
  | nil => exact h
  | cons option options ih =>
    apply ih
    · exact h.applyOneOption (hvalid option List.mem_cons_self)
    · exact fun other hother => hvalid other (List.mem_cons_of_mem _ hother)

theorem KeptData.empty : KeptData ∅ := fun _ h => nomatch h

theorem builtInOptions_valid : ∀ option ∈ builtInOptions environment, option.Valid := by
  have hall : ∀ option ∈ builtInOptions environment,
      validateSecret option.secret = true ∧ 1 ≤ option.ip.length ∧ option.ip.length ≤ 45 := by
    cases environment <;> decide
  exact fun option hoption => ⟨(hall option hoption).1, (hall option hoption).2⟩

def KeptKeys (rsa : RSAPublicKey Key) (keys : PublicKeys Key) : Prop :=
  ∀ item ∈ keys.entries, item.2.entries ≠ [] ∧
    ∀ entry ∈ item.2.entries, rsa.fingerprint entry.2 = entry.1

theorem KeptKeys.empty : KeptKeys rsa ∅ := fun _ h => nomatch h

theorem entries_emplace_ne_nil {κ ν : Type*} [LinearOrder κ] (m : FlatMap κ ν) (k : κ) (v : ν) :
    (m.emplace k v).entries ≠ [] := by
  have hget : ((m.emplace k v).get? k) = some ((m.get? k).getD v) := by
    rw [FlatMap.get?_emplace, if_pos rfl]
  exact List.ne_nil_of_mem ((FlatMap.get?_eq_some_iff _ _ _).mp hget)

theorem KeptKeys.emplaceKey (h : KeptKeys rsa keys) (dcId : DcId) (key : Key) :
    KeptKeys rsa (emplaceKey rsa keys dcId key) := by
  intro item hitem
  rcases FlatMap.mem_upsert.mp hitem with hitem | rfl
  · exact h item hitem.1
  · refine ⟨entries_emplace_ne_nil _ _ _, fun entry hentry => ?_⟩
    rcases (FlatMap.mem_emplace _ _ _ _).mp hentry with hentry | ⟨rfl, -⟩
    · cases hinner : keys.get? dcId with
      | none =>
        rw [hinner] at hentry
        exact nomatch hentry
      | some inner =>
        rw [hinner] at hentry
        exact (h _ ((keys.get?_eq_some_iff _ _).mp hinner)).2 entry hentry
    · rfl

theorem KeptKeys.setCDNConfig (config : List CdnPublicKey) :
    KeptKeys rsa (setCDNConfig rsa d config).cdnPublicKeys := by
  refine List.foldlRecOn (motive := KeptKeys rsa) config _ KeptKeys.empty ?_
  intro keys h data _
  cases rsa.fromBytes data.publicKey with
  | none => exact h
  | some key => exact h.emplaceKey data.dcId key

structure Kept (rsa : RSAPublicKey Key) (environment : Environment) (d : DcOptions Key) :
    Prop where
  environment : d.environment = environment
  data : KeptData d.data
  keys : KeptKeys rsa d.cdnPublicKeys
  immutable : d.immutable = false

theorem Kept.processFromList {overwrite : Bool} (h : Kept rsa environment d)
    (hvalid : ∀ option ∈ options, option.Valid)
    (hprocess : processFromList d options overwrite = some d') : Kept rsa environment d' := by
  rw [DcOptions.processFromList] at hprocess
  by_cases hskip : (options.isEmpty || d.immutable) = true
  · rw [if_pos hskip] at hprocess
    exact Option.some.inj hprocess ▸ h
  · rw [if_neg hskip] at hprocess
    obtain ⟨difference, -, rfl⟩ := Option.map_eq_some_iff.mp hprocess
    split_ifs with hsame hoverwrite
    · exact h
    · exact ⟨h.environment, KeptData.empty.applyAll hvalid, h.keys, h.immutable⟩
    · exact ⟨h.environment, h.data.applyAll hvalid, h.keys, h.immutable⟩

theorem Kept.step {event : Event} (h : Kept rsa environment d) (hvalid : event.Valid)
    (hstep : step rsa d event = some d') : Kept rsa environment d' := by
  cases event with
  | setFromList options => exact h.processFromList hvalid hstep
  | addFromList options => exact h.processFromList hvalid hstep
  | setCDNConfig config =>
    cases Option.some.inj hstep
    exact ⟨h.environment, h.data, KeptKeys.setCDNConfig config, h.immutable⟩

theorem Reachable.kept (h : Reachable rsa environment d) : Kept rsa environment d := by
  induction h with
  | builtIn => exact ⟨rfl, KeptData.empty.applyAll builtInOptions_valid, KeptKeys.empty, rfl⟩
  | step _ hvalid hstep ih => exact ih.step hvalid hstep

end TelegramDesktop.Mtproto.DcOptions
