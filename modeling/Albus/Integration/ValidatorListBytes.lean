import Albus.Integration.BigVec
import Albus.Integration.StakePoolWithdrawals

/-! # The validator list of the stake pool, as account data

    `programs/albus-stake-pool/src/state.rs`: a header of five bytes and a big vector of
    entries of 73 bytes.  The handlers look an entry up and drop it by looking at fixed
    places of its bytes; here those places are the fields. -/

namespace Albus.Integration

open Albus.Lib Albus.Program

/-! ## An entry -/

/-- `ValidatorStakeInfo`, with every byte it has. -/
structure PodValidator where
  activeStakeLamports : UInt64
  transientStakeLamports : UInt64
  lastUpdateEpoch : UInt64
  transientSeedSuffix : UInt64
  unused : UInt32
  validatorSeedSuffix : UInt32
  /-- `PodStakeStatus` -/
  status : UInt8
  voteAccountAddress : Pubkey
  deriving DecidableEq

namespace PodValidator

/-- The sizes of the fields, in the order of their declaration. -/
def fieldSizes : List Nat := [8, 8, 8, 8, 4, 4, 1, 32]

def toPieces (v : PodValidator) : List (List UInt8) :=
  [leBytes 8 v.activeStakeLamports.toNat, leBytes 8 v.transientStakeLamports.toNat,
    leBytes 8 v.lastUpdateEpoch.toNat, leBytes 8 v.transientSeedSuffix.toNat,
    leBytes 4 v.unused.toNat, leBytes 4 v.validatorSeedSuffix.toNat, [v.status],
    v.voteAccountAddress.toList]

/-- `[u8; 32]` from a slice of that length. -/
def pubkeyOfBytes (bytes : List UInt8) : Pubkey :=
  (fixedArray 32 bytes).getD Pubkey.default

def ofPieces : List (List UInt8) → PodValidator
  | [active, transient, epoch, suffix, unused, seed, status, vote] =>
      { activeStakeLamports := UInt64.ofNat (leNat active)
        transientStakeLamports := UInt64.ofNat (leNat transient)
        lastUpdateEpoch := UInt64.ofNat (leNat epoch)
        transientSeedSuffix := UInt64.ofNat (leNat suffix)
        unused := UInt32.ofNat (leNat unused)
        validatorSeedSuffix := UInt32.ofNat (leNat seed)
        status := status.headD 0
        voteAccountAddress := pubkeyOfBytes vote }
  | _ => ⟨0, 0, 0, 0, 0, 0, 0, Pubkey.default⟩

def toBytes (v : PodValidator) : List UInt8 := v.toPieces.flatten

def ofBytes (bytes : List UInt8) : PodValidator := ofPieces (splitSizes fieldSizes bytes)

theorem map_length_toPieces (v : PodValidator) : v.toPieces.map List.length = fieldSizes := by
  simp [toPieces, fieldSizes]

theorem pubkeyOfBytes_toList (key : Pubkey) : pubkeyOfBytes key.toList = key := by
  have hlength : key.toList.length = 32 := Vector.length_toList
  obtain ⟨key', hkey', hlist⟩ := fixedArray_of_length hlength
  rw [pubkeyOfBytes, hkey', Option.getD_some]
  exact Vector.toList_inj.mp hlist

theorem toList_pubkeyOfBytes {bytes : List UInt8} (h : bytes.length = 32) :
    (pubkeyOfBytes bytes).toList = bytes := by
  obtain ⟨key, hkey, hlist⟩ := fixedArray_of_length h
  rw [pubkeyOfBytes, hkey, Option.getD_some, hlist]

theorem ofNat_leBytes_64 (x : UInt64) : UInt64.ofNat (leNat (leBytes 8 x.toNat)) = x := by
  rw [leNat_leBytes_of_lt x.toNat_lt, UInt64.ofNat_toNat]

theorem ofNat_leBytes_32 (x : UInt32) : UInt32.ofNat (leNat (leBytes 4 x.toNat)) = x := by
  rw [leNat_leBytes_of_lt x.toNat_lt, UInt32.ofNat_toNat]

/-- A word has the bytes it was read from. -/
theorem leBytes_ofNat_64 {bytes : List UInt8} (h : bytes.length = 8) :
    leBytes 8 (UInt64.ofNat (leNat bytes)).toNat = bytes := by
  have hlt := leNat_lt bytes
  rw [h] at hlt
  rw [UInt64.toNat_ofNat_of_lt' hlt, ← h, leBytes_leNat]

theorem leBytes_ofNat_32 {bytes : List UInt8} (h : bytes.length = 4) :
    leBytes 4 (UInt32.ofNat (leNat bytes)).toNat = bytes := by
  have hlt := leNat_lt bytes
  rw [h] at hlt
  rw [UInt32.toNat_ofNat_of_lt' hlt, ← h, leBytes_leNat]

theorem ofPieces_toPieces (v : PodValidator) : ofPieces v.toPieces = v := by
  simp only [toPieces, ofPieces, ofNat_leBytes_64, ofNat_leBytes_32, pubkeyOfBytes_toList,
    List.headD_cons]

/-- Pieces of the sizes of the fields are fields. -/
theorem toPieces_ofPieces {ps : List (List UInt8)} (h : ps.map List.length = fieldSizes) :
    (ofPieces ps).toPieces = ps := by
  simp only [fieldSizes, List.map_eq_cons_iff, List.map_eq_nil_iff] at h
  obtain ⟨active, _, rfl, h1, transient, _, rfl, h2, epoch, _, rfl, h3, suffix, _, rfl, h4,
    unused, _, rfl, h5, seed, _, rfl, h6, status, _, rfl, h7, vote, _, rfl, h8, rfl⟩ := h
  obtain ⟨status, rfl⟩ := List.length_eq_one_iff.mp h7
  simp only [ofPieces, toPieces, leBytes_ofNat_64 h1, leBytes_ofNat_64 h2, leBytes_ofNat_64 h3,
    leBytes_ofNat_64 h4, leBytes_ofNat_32 h5, leBytes_ofNat_32 h6, toList_pubkeyOfBytes h8,
    List.headD_cons]

/-- **AN ENTRY** is its 73 bytes. -/
def pod : Pod PodValidator where
  sizeOf := 73
  toBytes := toBytes
  ofBytes := ofBytes
  sizeOf_pos := by decide
  length_toBytes v := by
    rw [toBytes, List.length_flatten, map_length_toPieces]
    rfl
  ofBytes_toBytes v := by
    rw [ofBytes, toBytes, ← map_length_toPieces v, splitSizes_flatten, ofPieces_toPieces]
  toBytes_ofBytes bytes h := by
    obtain ⟨hflatten, hlength⟩ := @flatten_splitSizes _ fieldSizes bytes h
    rw [toBytes, ofBytes, toPieces_ofPieces hlength, hflatten]

/-! ## What the handlers look at -/

/-- `memcmp_pubkey` -/
def memcmpPubkey (voteAddress : Pubkey) (data : List UInt8) : Bool :=
  (data.drop 41).take 32 = voteAddress.toList

/-- `StakeStatus::ReadyForRemoval` -/
def readyForRemoval : UInt8 := 2

/-- `is_not_removed` -/
def isNotRemoved (data : List UInt8) : Bool := data[40]? ≠ some readyForRemoval

/-- The fields in front of the status. -/
def front (v : PodValidator) : List UInt8 := (v.toPieces.take 6).flatten

theorem length_front (v : PodValidator) : v.front.length = 40 := by
  simp [front, toPieces]

theorem toBytes_eq (v : PodValidator) :
    v.toBytes = v.front ++ v.status :: v.voteAccountAddress.toList := by
  simp [toBytes, front, toPieces]

theorem memcmpPubkey_toBytes (voteAddress : Pubkey) (v : PodValidator) :
    memcmpPubkey voteAddress v.toBytes = decide (v.voteAccountAddress = voteAddress) := by
  have hvote : (v.toBytes.drop 41).take 32 = v.voteAccountAddress.toList := by
    have hfront : (v.front ++ [v.status]).length = 41 := by
      rw [List.length_append, length_front]
      rfl
    rw [toBytes_eq, ← List.singleton_append, ← List.append_assoc, List.drop_left' hfront]
    exact List.take_of_length_le (Nat.le_of_eq Vector.length_toList)
  rw [memcmpPubkey, hvote]
  exact decide_eq_decide.mpr Vector.toList_inj

theorem isNotRemoved_toBytes (v : PodValidator) :
    isNotRemoved v.toBytes = decide (v.status ≠ readyForRemoval) := by
  have hstatus : v.toBytes[40]? = some v.status := by
    rw [toBytes_eq, List.getElem?_append_right (Nat.le_of_eq (length_front v)), length_front]
    rfl
  rw [isNotRemoved, hstatus]
  exact decide_eq_decide.mpr (not_congr Option.some_inj)

end PodValidator

/-! ## The account -/

structure ValidatorListHeader where
  accountType : AccountType
  maxValidators : Nat

/-- The index of the variant. -/
def AccountType.toByte : AccountType → UInt8
  | .uninitialized => 0
  | .stakePool => 1
  | .validatorList => 2

def AccountType.ofByte (b : UInt8) : Option AccountType :=
  if b = 0 then some .uninitialized
  else if b = 1 then some .stakePool
  else if b = 2 then some .validatorList
  else none

theorem AccountType.ofByte_toByte (t : AccountType) : AccountType.ofByte t.toByte = some t := by
  cases t <;> rfl

namespace ValidatorListHeader

/-- `ValidatorListHeader::LEN` -/
def len : Nat := 1 + 4

def toBytes (header : ValidatorListHeader) : List UInt8 :=
  header.accountType.toByte :: leBytes 4 header.maxValidators

/-- `deserialize_vec`: the header, and the big vector behind it. -/
def deserializeVec (data : List UInt8) : Option (ValidatorListHeader × BigVec) :=
  match data with
  | tag :: rest =>
      if rest.length < 4 then none
      else do
        let accountType ← AccountType.ofByte tag
        some ({ accountType, maxValidators := leNat (rest.take 4) }, { data := rest.drop 4 })
  | [] => none

theorem deserializeVec_append {header : ValidatorListHeader}
    (h : header.maxValidators < 2 ^ 32) (v : BigVec) :
    deserializeVec (header.toBytes ++ v.data) = some (header, v) := by
  have hlength : ¬(leBytes 4 header.maxValidators ++ v.data).length < 4 := by
    rw [List.length_append, length_leBytes]
    omega
  rw [toBytes, List.cons_append, deserializeVec, if_neg hlength, AccountType.ofByte_toByte,
    List.take_left' (length_leBytes _ _), List.drop_left' (length_leBytes _ _),
    leNat_leBytes_of_lt h]
  rfl

end ValidatorListHeader

/-- `calculate_max_validators` -/
def calculateMaxValidators (bufferLength : Nat) : Nat :=
  (bufferLength - (ValidatorListHeader.len + 4)) / 73

/-- What an operation on the list fails with. -/
inductive ValidatorListError where
  | borsh
  | invalidState
  | accountDataTooSmall
  | validatorAlreadyAdded
  | validatorNotFound
  | vector (e : BigVecError)
  deriving DecidableEq, Repr

/-- A change of an entry that leaves its validator. -/
structure EntryChange where
  apply : PodValidator → PodValidator
  vote_eq : ∀ v, (apply v).voteAccountAddress = v.voteAccountAddress

/-- What the handlers do with the list. -/
inductive ValidatorListCall where
  /-- `process_add_validator_to_pool` -/
  | add (entry : PodValidator)
  /-- `process_cleanup_removed_validator_entries` -/
  | cleanup
  /-- An entry that is looked up and changed. -/
  | update (voteAddress : Pubkey) (change : EntryChange)
  /-- `process_update_validator_list_balance` -/
  | updateBalances (startIndex len : Nat) (change : Nat → EntryChange)

namespace ValidatorListAccount

def liftVector {α : Type} : Except BigVecError α → Except ValidatorListError α
  | .ok a => .ok a
  | .error e => .error (.vector e)

/-- The operation on the vector behind the header. -/
def onVector (header : ValidatorListHeader) (v : BigVec) :
    ValidatorListCall → Except ValidatorListError BigVec
  | .add entry => do
      let len ← liftVector v.len
      if header.maxValidators = len then .error .accountDataTooSmall
      else do
        let found ← liftVector
          (v.find PodValidator.pod (PodValidator.memcmpPubkey entry.voteAccountAddress))
        if found.isSome then .error .validatorAlreadyAdded
        else
          (liftVector (v.push PodValidator.pod entry).2).map fun _ =>
            (v.push PodValidator.pod entry).1
  | .cleanup => liftVector (v.retain PodValidator.pod PodValidator.isNotRemoved)
  | .update voteAddress change => do
      let found ← liftVector
        (v.findMut PodValidator.pod (PodValidator.memcmpPubkey voteAddress))
      match found with
      | none => .error .validatorNotFound
      | some borrow => .ok (borrow.put (change.apply borrow.value))
  | .updateBalances startIndex len change => do
      let borrow ← liftVector (v.deserializeMutSlice PodValidator.pod startIndex len)
      .ok (borrow.put (borrow.value.mapIdx fun i => (change i).apply))

/-- An operation on the bytes of the account. -/
def step (data : List UInt8) (call : ValidatorListCall) :
    Except ValidatorListError (List UInt8) :=
  match ValidatorListHeader.deserializeVec data with
  | none => .error .borsh
  | some (header, v) =>
      if header.accountType = .validatorList then do
        let v ← onVector header v call
        .ok (data.take ValidatorListHeader.len ++ v.data)
      else .error .invalidState

/-- The same operation on the list of entries. -/
def entriesStep (maxValidators : Nat) (es : List PodValidator) :
    ValidatorListCall → Except ValidatorListError (List PodValidator)
  | .add entry =>
      if maxValidators = es.length then .error .accountDataTooSmall
      else if ∃ v ∈ es, v.voteAccountAddress = entry.voteAccountAddress then
        .error .validatorAlreadyAdded
      else .ok (es ++ [entry])
  | .cleanup => .ok (es.filter fun v => v.status ≠ PodValidator.readyForRemoval)
  | .update voteAddress change =>
      if ∃ v ∈ es, v.voteAccountAddress = voteAddress then
        .ok (es.modify (es.findIdx fun v => v.voteAccountAddress = voteAddress) change.apply)
      else .error .validatorNotFound
  | .updateBalances startIndex len change =>
      if es.length < startIndex + len then .error (.vector .accountDataTooSmall)
      else .ok (es.take startIndex
        ++ (BigVec.part es startIndex len).mapIdx (fun i => (change i).apply)
        ++ es.drop (startIndex + len))

/-- The bytes are a valid header with this bound, and a vector that holds these entries and has
    room for as many as the bound says. -/
structure Shows (maxValidators : Nat) (data : List UInt8) (es : List PodValidator) : Prop where
  word : maxValidators < 2 ^ 32
  bounded : es.length ≤ maxValidators
  data_eq : ∃ v : BigVec,
    data = (ValidatorListHeader.mk .validatorList maxValidators).toBytes ++ v.data ∧
      vecSizeBytes + maxValidators * 73 ≤ v.data.length ∧ v.Holds PodValidator.pod es

/-! ## The bytes and the entries -/

theorem onElements_memcmpPubkey (voteAddress : Pubkey) :
    BigVec.onElements PodValidator.pod (PodValidator.memcmpPubkey voteAddress)
      = fun v => decide (v.voteAccountAddress = voteAddress) :=
  funext fun v => PodValidator.memcmpPubkey_toBytes voteAddress v

theorem onElements_isNotRemoved :
    BigVec.onElements PodValidator.pod PodValidator.isNotRemoved
      = fun v => decide (v.status ≠ PodValidator.readyForRemoval) :=
  funext fun v => PodValidator.isNotRemoved_toBytes v

/-- The vector part of `Shows`. -/
structure VectorShows (maxValidators : Nat) (v : BigVec) (es : List PodValidator) : Prop where
  bounded : es.length ≤ maxValidators
  room : vecSizeBytes + maxValidators * 73 ≤ v.data.length
  holds : v.Holds PodValidator.pod es

variable {maxValidators : Nat} {v : BigVec} {es : List PodValidator}

theorem isSome_find?_iff {es : List PodValidator} {voteAddress : Pubkey} :
    (es.find? fun v => decide (v.voteAccountAddress = voteAddress)).isSome = true ↔
      ∃ v ∈ es, v.voteAccountAddress = voteAddress := by
  rw [List.find?_isSome]
  exact ⟨fun ⟨v, hv, h⟩ => ⟨v, hv, of_decide_eq_true h⟩,
    fun ⟨v, hv, h⟩ => ⟨v, hv, decide_eq_true h⟩⟩

/-- **ONE OPERATION** on the vector is the operation on the entries: where the count check lets
    an entry in, there is room for it. -/
theorem VectorShows.onVector (h : VectorShows maxValidators v es)
    (hword : maxValidators < 2 ^ 32) (accountType : AccountType) (call : ValidatorListCall) :
    Matches (VectorShows maxValidators) (onVector ⟨accountType, maxValidators⟩ v call)
      (entriesStep maxValidators es call) := by
  obtain ⟨hbounded, hroom, hholds⟩ := h
  cases call with
  | add entry =>
      rw [ValidatorListAccount.onVector, hholds.len_eq, entriesStep]
      show Matches _ (if maxValidators = es.length then _ else _) _
      by_cases hfull : maxValidators = es.length
      · rw [if_pos hfull, if_pos hfull]
        rfl
      · rw [if_neg hfull, if_neg hfull, hholds.find, onElements_memcmpPubkey]
        show Matches _ (if _ then _ else _) _
        by_cases hadded : ∃ v ∈ es, v.voteAccountAddress = entry.voteAccountAddress
        · rw [if_pos (isSome_find?_iff.mpr hadded), if_pos hadded]
          rfl
        · have hlt : es.length + 1 ≤ maxValidators := by omega
          have hspace : (es.length + 1) * 73 ≤ maxValidators * 73 := Nat.mul_le_mul_right _ hlt
          obtain ⟨v', hpush, hlength, hholds', -⟩ := hholds.push entry (by omega)
            (show vecSizeBytes + (es.length + 1) * 73 ≤ _ by omega)
          rw [if_neg (mt isSome_find?_iff.mp hadded), if_neg hadded, hpush]
          refine ⟨?_, hlength ▸ hroom, hholds'⟩
          rw [List.length_append]
          exact hlt
  | cleanup =>
      obtain ⟨v', hretain, hlength, hholds', -⟩ := hholds.retain PodValidator.isNotRemoved
      rw [ValidatorListAccount.onVector, hretain]
      have hkept := congrArg (fun p => es.filter p) onElements_isNotRemoved
      refine ⟨le_trans (List.length_filter_le _ _) hbounded, hlength ▸ hroom, ?_⟩
      exact hkept ▸ hholds'
  | update voteAddress change =>
      rw [ValidatorListAccount.onVector, entriesStep]
      rcases hholds.findMut (PodValidator.memcmpPubkey voteAddress) with
        ⟨hnone, hfound⟩ | ⟨borrow, hfound, hfirst, hput⟩
      · rw [onElements_memcmpPubkey] at hnone
        have habsent : ¬∃ v ∈ es, v.voteAccountAddress = voteAddress := by
          rw [← isSome_find?_iff, hnone]
          exact Bool.false_ne_true
        rw [hfound, if_neg habsent]
        rfl
      · rw [onElements_memcmpPubkey] at hfirst hput
        have hpresent : ∃ v ∈ es, v.voteAccountAddress = voteAddress := by
          rw [← isSome_find?_iff, hfirst]
          rfl
        obtain ⟨hlength, hholds', -⟩ := hput (change.apply borrow.value)
        rw [hfound, if_pos hpresent, modify_findIdx hfirst]
        refine ⟨?_, hlength ▸ hroom, hholds'⟩
        rw [List.length_set]
        exact hbounded
  | updateBalances startIndex len change =>
      rw [ValidatorListAccount.onVector, entriesStep]
      by_cases hle : startIndex + len ≤ es.length
      · obtain ⟨borrow, hborrow, hvalue, hput⟩ := hholds.deserializeMutSlice hle
        have hlen : (borrow.value.mapIdx fun i => (change i).apply).length = len := by
          rw [List.length_mapIdx, hvalue, BigVec.length_part hle]
        obtain ⟨hlength, hholds', -⟩ := hput _ hlen
        rw [hborrow, if_neg (Nat.not_lt.mpr hle), ← hvalue]
        refine ⟨?_, hlength ▸ hroom, hholds'⟩
        rw [List.length_append, List.length_append, hlen, List.length_take, List.length_drop]
        omega
      · have hlt : es.length < startIndex + len := Nat.not_le.mp hle
        rw [hholds.deserializeMutSlice_error hlt, if_pos hlt]
        rfl

/-- **ONE OPERATION** on the bytes is the operation on the entries. -/
theorem Shows.step {data : List UInt8} (h : Shows maxValidators data es)
    (call : ValidatorListCall) :
    Matches (Shows maxValidators) (step data call) (entriesStep maxValidators es call) := by
  obtain ⟨hword, hbounded, v, rfl, hroom, hholds⟩ := h
  have hheader : ((ValidatorListHeader.mk .validatorList maxValidators).toBytes ++ v.data).take
      ValidatorListHeader.len = (ValidatorListHeader.mk .validatorList maxValidators).toBytes :=
    List.take_left' (congrArg (· + 1) (length_leBytes 4 maxValidators))
  have hvector := (VectorShows.mk hbounded hroom hholds).onVector hword .validatorList call
  rw [ValidatorListAccount.step, ValidatorListHeader.deserializeVec_append hword, hheader]
  show Matches _ (if _ then _ else _) _
  rw [if_pos rfl]
  cases hv : onVector ⟨.validatorList, maxValidators⟩ v call with
  | ok v' =>
      rw [hv] at hvector
      cases hes : entriesStep maxValidators es call with
      | ok es' =>
          rw [hes] at hvector
          exact ⟨hword, hvector.bounded, v', rfl, hvector.room, hvector.holds⟩
      | error e =>
          rw [hes] at hvector
          exact hvector.elim
  | error e =>
      rw [hv] at hvector
      cases hes : entriesStep maxValidators es call with
      | ok es' =>
          rw [hes] at hvector
          exact hvector.elim
      | error e' =>
          rw [hes] at hvector
          exact hvector

/-- The votes of a list of entries. -/
def votes (es : List PodValidator) : List Pubkey := es.map PodValidator.voteAccountAddress

theorem votes_modify (es : List PodValidator) (i : Nat) (change : EntryChange) :
    votes (es.modify i change.apply) = votes es := by
  refine List.ext_getElem? fun j => ?_
  rw [votes, votes, List.getElem?_map, List.getElem?_map, List.getElem?_modify]
  cases es[j]? with
  | none => rfl
  | some v =>
      show some (if i = j then change.apply v else v).voteAccountAddress = _
      split
      · exact congrArg some (change.vote_eq v)
      · rfl

theorem votes_mapIdx (es : List PodValidator) (change : Nat → EntryChange) :
    votes (es.mapIdx fun i => (change i).apply) = votes es := by
  refine List.ext_getElem? fun j => ?_
  rw [votes, votes, List.getElem?_map, List.getElem?_map, List.getElem?_mapIdx]
  cases es[j]? with
  | none => rfl
  | some v => exact congrArg some ((change j).vote_eq v)

/-- No operation lets two entries have one vote account. -/
theorem nodup_votes_step {es' : List PodValidator} {call : ValidatorListCall}
    (h : (votes es).Nodup) (hstep : entriesStep maxValidators es call = .ok es') :
    (votes es').Nodup := by
  cases call with
  | add entry =>
      rw [entriesStep] at hstep
      split at hstep
      · exact nomatch hstep
      · split at hstep
        · exact nomatch hstep
        · rename_i hadded
          rw [← Except.ok.inj hstep, votes, List.map_append, List.map_singleton]
          refine List.nodup_append.mpr ⟨h, List.nodup_singleton _, ?_⟩
          intro vote hvote vote' hvote' heq
          obtain ⟨v, hv, rfl⟩ := List.mem_map.mp hvote
          exact hadded ⟨v, hv, heq.trans (List.mem_singleton.mp hvote')⟩
  | cleanup =>
      rw [← Except.ok.inj hstep]
      exact h.sublist (List.filter_sublist.map _)
  | update voteAddress change =>
      rw [entriesStep] at hstep
      split at hstep
      · rw [← Except.ok.inj hstep, votes_modify]
        exact h
      · exact nomatch hstep
  | updateBalances startIndex len change =>
      rw [entriesStep] at hstep
      split at hstep
      · exact nomatch hstep
      · have hvotes := votes_mapIdx (BigVec.part es startIndex len) change
        rw [votes, votes] at hvotes
        rw [← Except.ok.inj hstep, votes, List.map_append, List.map_append, hvotes,
          ← List.map_append, ← List.map_append, BigVec.part, List.append_assoc,
          ← List.drop_drop, List.take_append_drop, List.take_append_drop]
        exact h

/-- What `process_initialize` leaves: a bound that the length of the account gives, and no
    entries. -/
structure Initialised (maxValidators : Nat) (data : List UInt8) : Prop where
  addressable : data.length < 2 ^ 63
  word : maxValidators < 2 ^ 32
  positive : 0 < maxValidators
  bound : calculateMaxValidators data.length = maxValidators
  data_eq : ∃ spare, data = (ValidatorListHeader.mk .validatorList maxValidators).toBytes
    ++ leBytes vecSizeBytes 0 ++ spare

theorem Initialised.shows {data : List UInt8} (h : Initialised maxValidators data) :
    Shows maxValidators data [] := by
  obtain ⟨haddress, hword, hpositive, hbound, spare, hdata⟩ := h
  have hlength : data.length = ValidatorListHeader.len + 4 + spare.length := by
    rw [hdata, ValidatorListHeader.toBytes, List.length_append, List.length_append,
      List.length_cons, length_leBytes, length_leBytes]
    rfl
  have hspare : maxValidators * 73 ≤ spare.length := by
    rw [← hbound, calculateMaxValidators, hlength, Nat.add_sub_cancel_left]
    exact Nat.div_mul_le_self _ _
  refine ⟨hword, Nat.zero_le _, ⟨leBytes vecSizeBytes 0 ++ spare⟩, ?_, ?_, ?_, ?_, spare, ?_⟩
  · rw [hdata, List.append_assoc]
  · show _ ≤ (leBytes vecSizeBytes 0 ++ spare).length
    rw [List.length_append, length_leBytes]
    omega
  · show (leBytes vecSizeBytes 0 ++ spare).length < _
    rw [List.length_append, length_leBytes]
    have : vecSizeBytes = 4 := rfl
    omega
  · exact Nat.two_pow_pos 32
  · exact (List.append_nil _).symm ▸ rfl

/-- **THE VALIDATOR LIST.** From the account that the pool was initialised with, whatever is
    added, cleaned up and changed in whatever order: the bytes are the entries that the same
    operations give on a list, there are at most as many as the account was sized for, and no
    two of them are of one validator. -/
theorem validatorList_run {data : List UInt8} (h : Initialised maxValidators data)
    (calls : List ValidatorListCall) :
    ∃ es, es = (exec (entriesStep maxValidators) [] calls).2 ∧
      Shows maxValidators (exec step data calls).2 es ∧ es.length ≤ maxValidators ∧
      (votes es).Nodup := by
  obtain ⟨-, hshows⟩ := exec_matches (fun _ _ call h => h.step call) calls h.shows
  refine ⟨_, rfl, hshows, hshows.bounded, ?_⟩
  exact (run_exec (entriesStep maxValidators) [] calls).preserves (P := fun es => (votes es).Nodup)
    (show (votes []).Nodup from List.nodup_nil) fun _ _ _ hnodup hstep =>
      nodup_votes_step hnodup hstep

namespace Sample

def entry (n : UInt8) : PodValidator where
  activeStakeLamports := 1000
  transientStakeLamports := 0
  lastUpdateEpoch := 7
  transientSeedSuffix := 0
  unused := 0
  validatorSeedSuffix := 0
  status := 0
  voteAccountAddress := Vector.replicate 32 n

/-- The entry is given up. -/
def giveUp : EntryChange where
  apply v := { v with activeStakeLamports := 0, status := PodValidator.readyForRemoval }
  vote_eq _ := rfl

/-- An account with room for two. -/
def data : List UInt8 :=
  (ValidatorListHeader.mk .validatorList 2).toBytes ++ leBytes vecSizeBytes 0
    ++ List.replicate 146 0

def calls : List ValidatorListCall :=
  [.add (entry 1), .add (entry 2), .add (entry 3), .update (Vector.replicate 32 1) giveUp,
    .cleanup, .add (entry 2), .add (entry 3)]

end Sample

/-- The third entry finds no room, and the second one is there already. -/
theorem validatorList_run_sample :
    (∃ es, es = (exec (entriesStep 2) [] Sample.calls).2 ∧
      Shows 2 (exec step Sample.data Sample.calls).2 es ∧ es.length ≤ 2 ∧ (votes es).Nodup) ∧
      (exec (entriesStep 2) [] Sample.calls).2 = [Sample.entry 2, Sample.entry 3] :=
  ⟨validatorList_run ⟨by decide +kernel, by decide, by decide, by decide +kernel, _, rfl⟩
      Sample.calls, by decide +kernel⟩

end ValidatorListAccount

end Albus.Integration
