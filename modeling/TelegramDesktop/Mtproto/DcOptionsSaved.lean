import TelegramDesktop.Mtproto.DcOptionsReachable

namespace TelegramDesktop.Mtproto.DcOptions
open Base DataStream

variable {Key : Type} {rsa : RSAPublicKey Key} {d d' : DcOptions Key} {data : Data}
  {keys : PublicKeys Key} {environment : Environment}

theorem toInt_ofSize {size : ℕ} (h : size < 2 ^ 31) : (Int32.ofNat size).toInt = size :=
  Int32.toInt_ofNat_of_lt h

theorem takeSecret_ofSize {secret : List UInt8} (hsize : secret.length < 2 ^ 31)
    (rest : List UInt8) :
    takeSecret kVersion (ofSize secret.length ++ secret ++ rest) =
      if secret.length ≤ 32 then some (secret, rest) else none := by
  have hint := toInt_ofSize hsize
  have hversion : (0 : Int32) < kVersion := by decide
  have hnonneg : ¬ Int32.ofNat secret.length < 0 := by
    rw [Int32.lt_iff_toInt_lt, hint]
    exact not_lt.mpr (Int.natCast_nonneg _)
  have hmax : kMaxSecretSize < Int32.ofNat secret.length ↔ ¬ secret.length ≤ 32 := by
    have hbound : kMaxSecretSize.toInt = 32 := by decide
    rw [Int32.lt_iff_toInt_lt, hint, hbound]
    omega
  rw [takeSecret, if_pos hversion, ofSize, List.append_assoc, takeInt_ofInt, Option.bind_some]
  by_cases hfit : secret.length ≤ 32
  · have hlimit : ¬ (Int32.ofNat secret.length < 0 ∨ kMaxSecretSize < Int32.ofNat secret.length) :=
      fun h => h.elim hnonneg fun h => hmax.mp h hfit
    rw [if_neg hlimit, if_pos hfit, hint, Int.toNat_natCast, takeRaw_append]
  · rw [if_pos (.inr (hmax.mpr hfit)), if_neg hfit]

/-- The writer has no limit for the secret, the reader has one. -/
theorem takeEndpoint_ofEndpoint {endpoint : Endpoint} (hvalid : endpoint.Valid)
    (hsize : endpoint.secret.length < 2 ^ 31) (rest : List UInt8) :
    takeEndpoint kVersion (ofEndpoint endpoint ++ rest) =
      if endpoint.secret.length ≤ 32 then some (endpoint, rest) else none := by
  have hint := toInt_ofSize (hvalid.ip.2.trans_lt (by decide))
  have hlimit : ¬ (Int32.ofNat endpoint.ip.length ≤ 0 ∨
      kMaxIpSize < Int32.ofNat endpoint.ip.length) := by
    have hbound : kMaxIpSize.toInt = 45 := by decide
    have hzero : (0 : Int32).toInt = 0 := by decide
    have hip := hvalid.ip
    rw [Int32.le_iff_toInt_le, Int32.lt_iff_toInt_lt, hint, hbound, hzero]
    omega
  have hsecret := takeSecret_ofSize hsize rest
  simp only [List.append_assoc] at hsecret
  simp only [takeEndpoint, ofEndpoint, List.append_assoc, takeInt_ofInt, Option.bind_some]
  rw [ofSize, takeInt_ofInt, Option.bind_some, if_neg hlimit, hint, Int.toNat_natCast,
    takeRaw_append, Option.bind_some, hsecret]
  split_ifs
  · rfl
  · rfl

theorem takeOptions_saved {endpoints : List Endpoint}
    (hvalid : ∀ endpoint ∈ endpoints, endpoint.Valid)
    (hsize : ∀ endpoint ∈ endpoints, endpoint.secret.length < 2 ^ 31) (data : Data)
    (rest : List UInt8) :
    takeOptions kVersion endpoints.length data (endpoints.flatMap ofEndpoint ++ rest) =
      if ∀ endpoint ∈ endpoints, endpoint.secret.length ≤ 32 then
        some (applyAll data endpoints, rest)
      else none := by
  induction endpoints generalizing data with
  | nil => exact (if_pos fun _ h => nomatch h).symm
  | cons endpoint endpoints ih =>
    have hhead := takeEndpoint_ofEndpoint (hvalid endpoint List.mem_cons_self)
      (hsize endpoint List.mem_cons_self) (endpoints.flatMap ofEndpoint ++ rest)
    have htail := ih (fun other hother => hvalid other (List.mem_cons_of_mem _ hother))
      (fun other hother => hsize other (List.mem_cons_of_mem _ hother))
    rw [List.length_cons, List.flatMap_cons, List.append_assoc, takeOptions, hhead]
    simp only [List.forall_mem_cons]
    by_cases hfit : endpoint.secret.length ≤ 32
    · rw [if_pos hfit, Option.bind_some, htail]
      simp only [hfit, true_and]
      rfl
    · rw [if_neg hfit, Option.bind_none]
      simp only [hfit, false_and, if_false]

/-- The reader drops an address that is there twice; a list that was kept has none. -/
theorem groupValue_addOption {before list : List Endpoint}
    (hdistinct : (before ++ list).Pairwise fun a b => sameAddress b a = false) :
    groupValue addOption (some before) list = some (before ++ list) := by
  induction list generalizing before with
  | nil => rw [groupValue, List.append_nil]
  | cons endpoint list ih =>
    have hnew : ¬ before.any (sameAddress endpoint) = true := by
      intro hany
      obtain ⟨other, hother, hsame⟩ := List.any_eq_true.mp hany
      have hdiffers := (List.pairwise_append.mp hdistinct).2.2 other hother endpoint
        List.mem_cons_self
      rw [hdiffers] at hsame
      cases hsame
    have hadded : addOption (some before) endpoint = before ++ [endpoint] := if_neg hnew
    have hsplit : before ++ endpoint :: list = before ++ [endpoint] ++ list := by
      rw [List.append_assoc, List.singleton_append]
    rw [groupValue, hadded, hsplit]
    apply ih
    rw [← hsplit]
    exact hdistinct

theorem KeptList.groupValue {dcId : DcId} {list : List Endpoint} (h : KeptList dcId list) :
    Base.groupValue DcOptions.addOption none list = some list := by
  cases list with
  | nil => exact absurd rfl h.nonempty
  | cons endpoint list => exact groupValue_addOption h.distinct

theorem applyAll_flatMap {groups : List (DcId × List Endpoint)}
    (h : ∀ group ∈ groups, KeptList group.1 group.2) (data : Data) :
    applyAll data (groups.flatMap Prod.snd) =
      groups.foldl (fun data group =>
        group.2.foldl (fun data option => data.upsert group.1 (addOption · option)) data) data := by
  rw [applyAll, List.foldl_flatMap]
  apply List.foldl_ext
  intro data group hgroup
  apply List.foldl_ext
  intro data option hoption
  rw [applyOneOption_fst, (h group hgroup).id option hoption]

/-- The dcs that are saved. -/
def savedData (data : Data) : Data :=
  ⟨data.entries.filter fun item => !isTemporaryDcId item.1, data.sorted.filter _⟩

theorem applyAll_savedEndpoints (h : KeptData data) :
    applyAll ∅ (savedEndpoints data) = savedData data := by
  have hkept : ∀ group ∈ (savedData data).entries, KeptList group.1 group.2 := fun group hgroup =>
    h group (List.mem_of_mem_filter hgroup)
  have hfold := foldl_groups (m := (∅ : Data)) (f := addOption) Prod.snd
    (savedData data).sorted (fun group hgroup => (hkept group hgroup).groupValue)
    (fun group _ => FlatMap.get?_empty group.1)
  exact (applyAll_flatMap hkept ∅).trans (hfold.trans (emplaceAll_entries _))

theorem get?_savedData {dcId : DcId} (h : isTemporaryDcId dcId = false) :
    (savedData data).get? dcId = data.get? dcId := by
  apply Option.ext
  intro list
  rw [FlatMap.get?_eq_some_iff, FlatMap.get?_eq_some_iff, savedData, List.mem_filter]
  simp only [h, Bool.not_false, and_true]

theorem savedEndpoints_valid (h : KeptData data) :
    ∀ endpoint ∈ savedEndpoints data, endpoint.Valid := by
  intro endpoint hendpoint
  obtain ⟨item, hitem, hmem⟩ := List.mem_flatMap.mp hendpoint
  exact (h item (List.mem_of_mem_filter hitem)).valid endpoint hmem

theorem takePublicKeys_saved
    (hrsa : ∀ key, rsa.fromNE (rsa.getN key) (rsa.getE key) = some key)
    {saved : List (DcId × Key)}
    (hsize : ∀ key ∈ saved, (rsa.getN key.2).length < 2 ^ 31 ∧ (rsa.getE key.2).length < 2 ^ 31)
    (keys : PublicKeys Key) (rest : List UInt8) :
    takePublicKeys rsa saved.length keys (saved.flatMap (ofPublicKey rsa) ++ rest) =
      some (saved.foldl (fun keys key => emplaceKey rsa keys key.1 key.2) keys, rest) := by
  induction saved generalizing keys with
  | nil => rfl
  | cons key saved ih =>
    have hkey := hsize key List.mem_cons_self
    have htail := ih fun other hother => hsize other (List.mem_cons_of_mem _ hother)
    rw [List.length_cons, List.flatMap_cons, List.append_assoc, takePublicKeys, takePublicKey,
      ofPublicKey, List.append_assoc, List.append_assoc, takeInt_ofInt, Option.bind_some,
      takeBytes_ofBytes hkey.1, Option.bind_some, takeBytes_ofBytes hkey.2, Option.bind_some,
      hrsa, Option.map_some, Option.bind_some, htail, List.foldl_cons]

theorem groupValue_emplace {entries : List (Fin (2 ^ 64) × Key)}
    (h : ∀ entry ∈ entries, rsa.fingerprint entry.2 = entry.1)
    (inner : FlatMap (Fin (2 ^ 64)) Key) :
    groupValue (fun inner key => (inner.getD ∅).emplace (rsa.fingerprint key) key) (some inner)
      (entries.map Prod.snd) = some (emplaceAll entries inner) := by
  induction entries generalizing inner with
  | nil => rfl
  | cons entry entries ih =>
    rw [List.map_cons, groupValue, ih fun other hother => h other (List.mem_cons_of_mem _ hother),
      emplaceAll_cons, Option.getD_some, h entry List.mem_cons_self]

theorem foldl_savedKeys (h : KeptKeys rsa keys) :
    (savedKeys keys).foldl (fun keys key => emplaceKey rsa keys key.1 key.2) ∅ = keys := by
  have hvalue : ∀ group ∈ keys.entries,
      groupValue (fun inner key => (inner.getD ∅).emplace (rsa.fingerprint key) key) none
        (group.2.entries.map Prod.snd) = some group.2 := by
    intro group hgroup
    obtain ⟨hne, hfingerprint⟩ := h group hgroup
    have hall := emplaceAll_entries group.2
    cases hentries : group.2.entries with
    | nil => exact absurd hentries hne
    | cons entry entries =>
      rw [hentries] at hfingerprint hall
      rw [List.map_cons, groupValue, Option.getD_none,
        groupValue_emplace (fun other hother => hfingerprint other (List.mem_cons_of_mem _ hother)),
        hfingerprint entry List.mem_cons_self, ← emplaceAll_cons, hall]
  have hfold := foldl_groups (m := (∅ : PublicKeys Key))
    (fun group => group.2.entries.map Prod.snd) keys.sorted hvalue
    (fun group _ => FlatMap.get?_empty group.1)
  rw [emplaceAll_entries] at hfold
  rw [savedKeys, List.foldl_flatMap]
  simp only [List.foldl_map] at hfold ⊢
  exact hfold

/-- The size that is reserved is the size that is written. -/
theorem length_serializeOptions :
    (serializeOptions rsa data keys).length = serializedSize rsa data keys := by
  have hendpoint : ∀ endpoint, (ofEndpoint endpoint).length =
      4 + 4 + 4 + (4 + endpoint.ip.length) + (4 + endpoint.secret.length) := by
    intro endpoint
    simp only [ofEndpoint, ofSize, List.length_append, length_ofInt]
    omega
  have hkey : ∀ key, (ofPublicKey rsa key).length =
      4 + (4 + (rsa.getN key.2).length) + (4 + (rsa.getE key.2).length) := by
    intro key
    rw [ofPublicKey, List.length_append, List.length_append, length_ofInt, length_ofBytes,
      length_ofBytes]
  simp only [serializeOptions, serializedSize, ofSize, List.length_append, length_ofInt,
    List.length_flatMap, hendpoint, hkey]

/-- Everything in an array is no longer than the array. -/
theorem sizes_of_serializedSize {limit : ℕ} (h : serializedSize rsa data keys < limit) :
    ((savedEndpoints data).length < limit ∧
      ∀ endpoint ∈ savedEndpoints data, endpoint.secret.length < limit) ∧
    (savedKeys keys).length < limit ∧
      ∀ key ∈ savedKeys keys,
        (rsa.getN key.2).length < limit ∧ (rsa.getE key.2).length < limit := by
  rw [serializedSize] at h
  refine ⟨⟨?_, fun endpoint hendpoint => ?_⟩, ?_, fun key hkey => ?_⟩
  · have hlength := List.length_le_sum_of_one_le ((savedEndpoints data).map fun endpoint =>
      4 + 4 + 4 + (4 + endpoint.ip.length) + (4 + endpoint.secret.length))
      (by simp only [List.forall_mem_map]; omega)
    rw [List.length_map] at hlength
    omega
  · have hle := List.single_le_sum (fun _ _ => Nat.zero_le _) _ (List.mem_map_of_mem
      (f := fun endpoint : Endpoint =>
        4 + 4 + 4 + (4 + endpoint.ip.length) + (4 + endpoint.secret.length)) hendpoint)
    omega
  · have hlength := List.length_le_sum_of_one_le ((savedKeys keys).map fun key =>
      4 + (4 + (rsa.getN key.2).length) + (4 + (rsa.getE key.2).length))
      (by simp only [List.forall_mem_map]; omega)
    rw [List.length_map] at hlength
    omega
  · have hle := List.single_le_sum (fun _ _ => Nat.zero_le _) _ (List.mem_map_of_mem
      (f := fun key : DcId × Key =>
        4 + (4 + (rsa.getN key.2).length) + (4 + (rsa.getE key.2).length)) hkey)
    omega

theorem takeCount_ofSize {size : ℕ} (h : size < 2 ^ 31) (rest : List UInt8) :
    takeCount (ofSize size ++ rest) = some (size, rest) := by
  have hint := toInt_ofSize h
  have hnonneg : ¬ Int32.ofNat size < 0 := by
    rw [Int32.lt_iff_toInt_lt, hint]
    exact not_lt.mpr (Int.natCast_nonneg _)
  rw [takeCount, ofSize, takeInt_ofInt, Option.bind_some, if_neg hnonneg, hint, Int.toNat_natCast]

theorem takeHeader_ofInt {count : ℕ} (h : count < 2 ^ 31) (rest : List UInt8) :
    takeHeader (ofInt (-kVersion) ++ (ofSize count ++ rest)) = some (kVersion, count, rest) := by
  have hminus : -kVersion < 0 := by decide
  have hversion : -(-kVersion) = kVersion := by decide
  rw [takeHeader, takeInt_ofInt, Option.bind_some, if_pos hminus, takeCount_ofSize h,
    Option.map_some, hversion]

/-- A saved array is read back when the secrets pass the limit of the reader, and only then. -/
theorem constructFromSerialized_serializeOptions
    (hrsa : ∀ key, rsa.fromNE (rsa.getN key) (rsa.getE key) = some key) (hdata : KeptData data)
    (hkeys : KeptKeys rsa keys) (hsize : serializedSize rsa data keys < 2 ^ 31)
    (hfresh : d.cdnPublicKeys = ∅) :
    constructFromSerialized rsa d (serializeOptions rsa data keys) =
      if ∀ endpoint ∈ savedEndpoints data, endpoint.secret.length ≤ 32 then
        some { d with data := savedData data, cdnPublicKeys := keys }
      else none := by
  obtain ⟨⟨hcount, hsecrets⟩, hkeyCount, hkeySizes⟩ := sizes_of_serializedSize hsize
  have hoptions := takeOptions_saved (savedEndpoints_valid hdata) hsecrets ∅
    (ofSize (savedKeys keys).length ++ (savedKeys keys).flatMap (ofPublicKey rsa))
  have hread := takePublicKeys_saved hrsa hkeySizes ∅ []
  rw [List.append_nil, foldl_savedKeys hkeys] at hread
  rw [constructFromSerialized, serializeOptions]
  simp only [List.append_assoc]
  rw [takeHeader_ofInt hcount, Option.bind_some, hoptions]
  split_ifs with hfit
  · have hmore : ofSize (savedKeys keys).length ++ (savedKeys keys).flatMap (ofPublicKey rsa) ≠ []
        ∧ 1 < kVersion := by
      refine ⟨fun hnil => ?_, by decide⟩
      have hlength := congrArg List.length hnil
      rw [List.length_append, ofSize, length_ofInt, List.length_nil] at hlength
      omega
    rw [Option.bind_some, if_pos hmore, takeCount_ofSize hkeyCount, Option.bind_some, hfresh, hread,
      applyAll_savedEndpoints hdata]
    rfl
  · rw [Option.bind_none]

structure Restored (d d' : DcOptions Key) : Prop where
  endpoints : ∀ dcId, isTemporaryDcId dcId = false → d'.data.get? dcId = d.data.get? dcId
  keys : d'.cdnPublicKeys = d.cdnPublicKeys

/-- A fresh object reads the saved options and has what was saved. -/
def Restores (rsa : RSAPublicKey Key) (d : DcOptions Key) : Prop :=
  ∃ serialized, serialize rsa d = some serialized ∧
    ∃ d', constructFromSerialized rsa (constructFromBuiltIn d.environment) serialized = some d' ∧
      Restored d d'

theorem restores_iff_secrets (hrsa : ∀ key, rsa.fromNE (rsa.getN key) (rsa.getE key) = some key)
    (h : Reachable rsa environment d) :
    Restores rsa d ↔ serializedSize rsa d.data d.cdnPublicKeys < 2 ^ 31 ∧
      ∀ endpoint ∈ savedEndpoints d.data, endpoint.secret.length ≤ 32 := by
  have hkept := h.kept
  have hown : (if d.immutable then constructFromBuiltIn d.environment else d) = d := by
    rw [hkept.immutable]
    rfl
  rw [Restores, serialize, hown]
  by_cases hsize : serializedSize rsa d.data d.cdnPublicKeys < 2 ^ 31
  · have hread := constructFromSerialized_serializeOptions
      (d := constructFromBuiltIn d.environment) hrsa hkept.data hkept.keys hsize rfl
    rw [if_pos hsize]
    simp only [Option.some.injEq, exists_eq_left', hread, hsize, true_and]
    split_ifs with hfit
    · refine iff_of_true ⟨_, rfl, ?_⟩ hfit
      exact ⟨fun dcId hdcId => get?_savedData hdcId, rfl⟩
    · exact iff_of_false (fun ⟨_, hnone, _⟩ => nomatch hnone) hfit
  · rw [if_neg hsize]
    exact iff_of_false (fun ⟨_, hnone, _⟩ => nomatch hnone) fun hboth => hsize hboth.1

def plainKeys : RSAPublicKey (List UInt8 × List UInt8) where
  fromBytes n := some (n, [])
  fromNE n e := some (n, e)
  getN := Prod.fst
  getE := Prod.snd
  fingerprint _ := 0

def longSecret : Endpoint := ⟨2, 0, [0x31, 0x2E, 0x31], 443, 0xEE :: List.replicate 32 0⟩

def shortSecret : Endpoint := ⟨2, 0, [0x31, 0x2E, 0x31], 443, 0xEE :: List.replicate 31 0⟩

def afterSetFromList (option : Endpoint) : DcOptions (List UInt8 × List UInt8) where
  environment := .test
  data := applyAll ∅ [option]

theorem reachable_setFromList {option : Endpoint} (hvalid : option.Valid)
    (hchanged : (countOptionsDifference (applyAll ∅ (builtInOptions .test)).entries
      (applyAll ∅ [option]).entries).map List.isEmpty = some false) :
    Reachable plainKeys .test (afterSetFromList option) := by
  have hevent : Event.Valid (.setFromList [option]) := fun other hother =>
    List.mem_singleton.mp hother ▸ hvalid
  refine .step .builtIn hevent ?_
  · obtain ⟨difference, hdifference, hempty⟩ := Option.map_eq_some_iff.mp hchanged
    change (countOptionsDifference (applyAll ∅ (builtInOptions .test)).entries
      (applyAll ∅ [option]).entries).map _ = _
    rw [hdifference, Option.map_some, hempty]
    rfl

def secondDc : Endpoint := ⟨4, 1, [0x32, 0x2E, 0x32], 80, []⟩

/-- Two data centers, and a key for a third one. -/
def withSecondDc : DcOptions (List UInt8 × List UInt8) where
  environment := .test
  data := applyAll ∅ [shortSecret, secondDc]
  cdnPublicKeys := emplaceKey plainKeys ∅ 203 ([1, 2, 3], [])

theorem reachable_withSecondDc : Reachable plainKeys .test withSecondDc := by
  have hoptions : Reachable plainKeys .test
      { environment := .test, data := applyAll ∅ [shortSecret, secondDc] } := by
    have hchanged : (countOptionsDifference (applyAll ∅ (builtInOptions .test)).entries
        (applyAll ∅ [shortSecret, secondDc]).entries).map List.isEmpty = some false := by
      decide +kernel
    have hevent : Event.Valid (.setFromList [shortSecret, secondDc]) :=
      List.forall_mem_cons.mpr ⟨⟨by decide, by decide⟩,
        List.forall_mem_singleton.mpr ⟨by decide, by decide⟩⟩
    refine .step .builtIn hevent ?_
    obtain ⟨difference, hdifference, hempty⟩ := Option.map_eq_some_iff.mp hchanged
    change (countOptionsDifference (applyAll ∅ (builtInOptions .test)).entries
      (applyAll ∅ [shortSecret, secondDc]).entries).map _ = _
    rw [hdifference, Option.map_some, hempty]
    rfl
  have hconfig : Event.Valid (.setCDNConfig [⟨203, [1, 2, 3]⟩]) := trivial
  exact .step hoptions hconfig rfl

theorem restores_shortSecret : Restores plainKeys withSecondDc :=
  (restores_iff_secrets (fun _ => rfl) reachable_withSecondDc).mpr
    ⟨by decide +kernel, by decide +kernel⟩

theorem long_secret_not_restored :
    (∀ key, plainKeys.fromNE (plainKeys.getN key) (plainKeys.getE key) = some key) ∧
      Reachable plainKeys .test (afterSetFromList longSecret) ∧
      ¬ Restores plainKeys (afterSetFromList longSecret) := by
  refine ⟨fun _ => rfl, reachable_setFromList ⟨by decide, by decide⟩ (by decide +kernel), ?_⟩
  rintro ⟨serialized, hserialized, d', hread, -⟩
  have hbytes : serialize plainKeys (afterSetFromList longSecret) =
      some (serializeOptions plainKeys (applyAll ∅ [longSecret]) ∅) := by decide +kernel
  have hfailed : (constructFromSerialized plainKeys (constructFromBuiltIn .test)
      (serializeOptions plainKeys (applyAll ∅ [longSecret]) ∅)).isNone = true := by
    decide +kernel
  rw [hbytes] at hserialized
  rw [Option.some.inj hserialized] at hfailed
  exact nomatch (hread ▸ hfailed)

end TelegramDesktop.Mtproto.DcOptions
