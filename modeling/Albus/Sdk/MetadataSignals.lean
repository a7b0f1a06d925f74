import Albus.Core.Flattening
import Albus.Lib.Run
import Albus.Sdk.ProofInputBuilder

/-! # The credential's metadata as private signals

    `createCredentialTree` wraps the issuer and the type in a `ClaimValue` that asks
    for their hash.  `flattenObject` takes the wrapper for one more nested object: the
    tree gets claims `meta.issuer.value` and `meta.issuer.opts.hash`, and none of the
    name that the builder asks for.  What the metadata is found as is then up to the
    subject (`metadata_provable_iff`), which may have properties of these very names. -/

namespace Albus.Sdk

open Albus.Lib Albus.Core

/-! ## Provable metadata -/

/-- The fields of `meta` that circuits have private signals for. -/
def metaFields : List String := ["issuer", "type", "validUntil", "validFrom"]

/-- The tree has `v` under `meta.field`, and the builder finds it for every signal
    `meta_field`. -/
structure Provable (tree : ClaimsTree) (field : String) (v : ℕ) : Prop where
  stores : tree.Stores ("meta." ++ field) v
  finds : ∀ known signal, signal.name = "meta_" ++ field →
    ∃ data, applyPrivateSignal known (some tree) signal = .ok data ∧
      data.head? = some (signal.name, .scalar v)

/-- The Poseidon byte hash of a text, as the tree holds it. -/
def byteHash (permute : List ℕ → ℕ) (text : String) : ℕ :=
  F1Field.e ((Poseidon.hashBytes permute text.toUTF8.data.toList).getD 0 : ℕ)

/-- The issuer and the type are provable by their hashes, the dates by the encoded
    unix time. -/
structure MetadataProvable (permute : List ℕ → ℕ) (unixTs : String → String)
    (credential : W3CCredential) (tree : ClaimsTree) : Prop where
  issuer : Provable tree "issuer" (byteHash permute credential.issuerId)
  type : Provable tree "type" (byteHash permute credential.lastType)
  validUntil : ∃ v, ClaimsTree.element permute (credential.validUntilTs unixTs) = .ok v ∧
    Provable tree "validUntil" v
  validFrom : ∃ v, ClaimsTree.element permute (credential.validFromTs unixTs) = .ok v ∧
    Provable tree "validFrom" v

/-- The subject has the issuer and the type under the names of the metadata, with
    texts whose values are the hashes, and nothing else there for the dates. -/
structure SubjectStates (permute : List ℕ → ℕ) (unixTs : String → String)
    (credential : W3CCredential) : Prop where
  issuer : ∃ text ∈ (credential.credentialSubject.without "meta").written "meta.issuer" "",
    ClaimsTree.element permute text = .ok (byteHash permute credential.issuerId)
  type : ∃ text ∈ (credential.credentialSubject.without "meta").written "meta.type" "",
    ClaimsTree.element permute text = .ok (byteHash permute credential.lastType)
  validUntil : ∀ text ∈ (credential.credentialSubject.after "meta").written
      "meta.validUntil" "",
    ClaimsTree.element permute text
      = ClaimsTree.element permute (credential.validUntilTs unixTs)
  validFrom : ∀ text ∈ (credential.credentialSubject.after "meta").written
      "meta.validFrom" "",
    ClaimsTree.element permute text
      = ClaimsTree.element permute (credential.validFromTs unixTs)

/-! ## What the builder finds -/

theorem normalizeClaimKey_meta : ∀ field ∈ metaFields,
    normalizeClaimKey ("meta_" ++ field) = "meta." ++ field ∧
      "meta_" ++ field ∉ knownSignals ∧ "meta." ++ field ≠ "__proto__" := by
  decide

/-- **STORED MEANS FOUND**: the underscore is read as the dot of the claim's name. -/
theorem provable_iff {tree : ClaimsTree} {field : String} (hfield : field ∈ metaFields)
    {v : ℕ} : Provable tree field v ↔ tree.Stores ("meta." ++ field) v := by
  obtain ⟨hkey, hunknown, -⟩ := normalizeClaimKey_meta field hfield
  refine ⟨Provable.stores, fun hstores => ⟨hstores, ?_⟩⟩
  intro known signal hname
  obtain ⟨proof, hproof, hfound, rfl⟩ := hstores
  have hget : tree.get ("meta." ++ field) = .ok proof := by
    cases h : tree.get ("meta." ++ field) with
    | error e =>
        rw [h] at hproof
        exact nomatch hproof
    | ok proof' =>
        rw [h] at hproof
        rw [Option.some.inj hproof]
  rw [applyPrivateSignal, applySignal, if_neg (hname ▸ hunknown)]
  show ∃ data, applyCredentialSignal (some tree) signal true = .ok data ∧ _
  simp only [applyCredentialSignal, hname, hkey, hget, hfound]
  exact ⟨_, rfl, rfl⟩

section Metadata

variable {permute : List ℕ → ℕ} {unixTs : String → String} {credential : W3CCredential}
  {depth : Option ℕ} {tree : ClaimsTree}

/-- What a credential's tree stores under a name of the metadata. -/
theorem stores_meta_iff
    (hcf : CollisionFree permute (credentialHashed permute unixTs credential depth))
    (hok : createCredentialTree permute unixTs credential depth = .ok tree)
    {field : String} (hfield : field ∈ metaFields) {v : ℕ} :
    Provable tree field v ↔
      ∃ text ∈ (credential.credentialSubject.set "meta"
          (.object (credential.metaProps unixTs))).written ("meta." ++ field) "",
        ClaimsTree.element permute text = .ok v := by
  obtain ⟨-, -, hp⟩ := normalizeClaimKey_meta field hfield
  obtain ⟨claims, t, hclaims, hnodup, hbuilt⟩ :=
    createCredentialTree_built hcf (fun _ hx => hx) hok
  rw [provable_iff hfield, hbuilt.stores_iff hcf hnodup,
    W3CCredential.claims_lookup hclaims hp]
  constructor
  · rintro ⟨text, value, htext, henc, rfl⟩
    exact ⟨text, htext, ClaimsTree.element_eq_ok_iff.mpr ⟨value, henc, rfl⟩⟩
  · rintro ⟨text, htext, helement⟩
    obtain ⟨value, henc, rfl⟩ := ClaimsTree.element_eq_ok_iff.mp helement
    exact ⟨text, value, htext, henc, rfl⟩

/-- A text that a credential's tree was made of has a value. -/
theorem element_of_written
    (hcf : CollisionFree permute (credentialHashed permute unixTs credential depth))
    (hok : createCredentialTree permute unixTs credential depth = .ok tree)
    {name : String} (text : String) (hp : name ≠ "__proto__")
    (htext : text ∈ (credential.credentialSubject.set "meta"
      (.object (credential.metaProps unixTs))).written name "") :
    ∃ v, ClaimsTree.element permute text = .ok v := by
  obtain ⟨claims, t, hclaims, -, hbuilt⟩ :=
    createCredentialTree_built hcf (fun _ hx => hx) hok
  have hlookup : claims.lookup name = some text :=
    (W3CCredential.claims_lookup hclaims hp).trans htext
  obtain ⟨value, henc⟩ := hbuilt.encoded _ (mem_of_lookup hlookup)
  exact ⟨_, ClaimsTree.element_eq_ok_iff.mpr ⟨value, henc, rfl⟩⟩

/-- A name that the metadata does not write is the subject's. -/
theorem provable_hashed_iff
    (hcf : CollisionFree permute (credentialHashed permute unixTs credential depth))
    (hok : createCredentialTree permute unixTs credential depth = .ok tree)
    {field : String} (hfield : field ∈ ["issuer", "type"]) {v : ℕ} :
    Provable tree field v ↔
      ∃ text ∈ (credential.credentialSubject.without "meta").written ("meta." ++ field) "",
        ClaimsTree.element permute text = .ok v := by
  have hmeta : field ∈ metaFields ∧ "meta." ++ field ∈ ["meta.issuer", "meta.type"] := by
    revert field
    decide
  rw [stores_meta_iff hcf hok hmeta.1, JsProps.written_set_of_none
    (W3CCredential.written_metaProps_hashed hmeta.2)]

/-- A name that the metadata writes is its own unless a later property of the subject
    has another value there. -/
theorem provable_date_iff
    (hcf : CollisionFree permute (credentialHashed permute unixTs credential depth))
    (hok : createCredentialTree permute unixTs credential depth = .ok tree)
    (field : String) {ts : String} (hfield : field ∈ metaFields)
    (hwritten : (JsValue.object (credential.metaProps unixTs)).written ("meta." ++ field)
      "meta" = some ts) :
    (∃ v, ClaimsTree.element permute ts = .ok v ∧ Provable tree field v) ↔
      ∀ text ∈ (credential.credentialSubject.after "meta").written ("meta." ++ field) "",
        ClaimsTree.element permute text = ClaimsTree.element permute ts := by
  obtain ⟨-, -, hp⟩ := normalizeClaimKey_meta field hfield
  have hset := JsProps.written_set_of_some hwritten credential.credentialSubject
  have hvalue := fun text => element_of_written hcf hok text hp
  simp only [stores_meta_iff hcf hok hfield]
  rw [hset] at hvalue ⊢
  generalize (credential.credentialSubject.after "meta").written ("meta." ++ field) "" = later
    at hvalue ⊢
  cases later with
  | none =>
      obtain ⟨v, hv⟩ := hvalue ts rfl
      exact iff_of_true ⟨v, hv, ts, rfl, hv⟩ nofun
  | some text =>
      obtain ⟨v, hv⟩ := hvalue text rfl
      constructor
      · rintro ⟨v', hts, text', htext, htext'⟩ x hx
        obtain rfl := Option.some.inj htext
        obtain rfl := Option.some.inj hx
        exact htext'.trans hts.symm
      · intro hsame
        have hts : ClaimsTree.element permute ts = .ok v := (hsame text rfl).symm.trans hv
        exact ⟨v, hts, text, rfl, hv⟩

/-- **THE METADATA IS PROVABLE WHERE THE SUBJECT STATES IT.** -/
theorem metadata_provable_iff
    (hcf : CollisionFree permute (credentialHashed permute unixTs credential depth))
    (hok : createCredentialTree permute unixTs credential depth = .ok tree) :
    MetadataProvable permute unixTs credential tree ↔
      SubjectStates permute unixTs credential := by
  have hissuer := fun v => provable_hashed_iff (v := v) hcf hok
    (List.mem_cons_self : "issuer" ∈ ["issuer", "type"])
  have htypes := fun v => provable_hashed_iff (v := v) hcf hok
    (List.mem_cons_of_mem _ List.mem_cons_self : "type" ∈ ["issuer", "type"])
  have huntil := provable_date_iff hcf hok "validUntil" (by decide)
    W3CCredential.written_metaProps_validUntil
  have hfrom := provable_date_iff hcf hok "validFrom" (by decide)
    W3CCredential.written_metaProps_validFrom
  constructor
  · intro h
    exact ⟨(hissuer _).mp h.issuer, (htypes _).mp h.type, huntil.mp h.validUntil,
      hfrom.mp h.validFrom⟩
  · intro h
    exact ⟨(hissuer _).mpr h.issuer, (htypes _).mpr h.type, huntil.mpr h.validUntil,
      hfrom.mpr h.validFrom⟩

end Metadata

/-! ## A credential that no one states twice -/

namespace SelfieSample

def leaf0 : ℕ :=
  16695010720940772103158069690241407409634437793360697559588161640136875943170

def leaf1 : ℕ :=
  1051914112799419709780052535150010669956376934025403348627354646788045048823

def node0 : ℕ :=
  5521590584718031596001052017028985832861831876869573236712756674077707232425

def leaf2 : ℕ :=
  18292919862865551044106520598557784958866532981897881345824530350199364605140

def node1 : ℕ :=
  4587223742491734428963169596845364395751260166684928903536522646397274211848

def node2 : ℕ :=
  2596656586819010966955387581878230477064186399796192492383410223249700119623

def leaf3 : ℕ :=
  20388414296007612699957093341831349875701901966155843874488494361916851691354

def node3 : ℕ :=
  4624769280590279984434739853689523398368404251064567304637333294284758274049

def node4 : ℕ :=
  17381614140068188981033682428095865685744592978593672896785511429647994094067

def leaf4 : ℕ :=
  3794228867378256535336367177351009655267082606510740996186779964464538923687

def node5 : ℕ :=
  3300043345661955622202916476469779358256908844827853545954707962566447879389

def node6 : ℕ :=
  14257376135750061529503024046632823956797478334391780357961771286563062019052

def node7 : ℕ :=
  16443285093530887252097450624543528806680297641848498154231824988013738720442

def leaf5 : ℕ :=
  4888419464300539284623807318021941261397526720264132203901004455965483337261

def node8 : ℕ :=
  3881201844039676209019566911192638504561200304917427526275836622233044024662

def node9 : ℕ :=
  9930512688279274673511951529620539597093643542967621778997227630789411301012

def node10 : ℕ :=
  10455083901568296353011938386019103750684370007774310150244757705737663554252

/-- Poseidon on the nodes of the tree below. -/
def table : List (List ℕ × ℕ) :=
  [([0, 2036590936611676280696053244978546, 1], leaf0), ([1, 1953658213, 1], leaf1),
    ([leaf0, leaf1], node0), ([2, 48, 1], leaf2), ([leaf0, leaf2], node1),
    ([node1, leaf1], node2), ([3, 48, 1], leaf3), ([leaf1, leaf3], node3),
    ([node1, node3], node4), ([4, 25829217003847168330754845029, 1], leaf4),
    ([leaf0, leaf4], node5), ([node5, leaf2], node6), ([node6, node3], node7),
    ([5, 1953658213, 1], leaf5), ([leaf1, leaf5], node8), ([node8, leaf3], node9),
    ([node6, node9], node10)]

def poseidon (inputs : List ℕ) : ℕ := (table.lookup inputs).getD 0

/-- The credential below has no date. -/
def unixTs (_ : String) : String := "0"

/-- A selfie credential with an empty subject. -/
def credential : W3CCredential where
  issuer := .text "did:web:issuer"
  validUntil := none
  validFrom := none
  issuanceDate := none
  type := ["VerifiableCredential", "SumsubSelfie"]
  credentialSubject := .nil

def tree : ClaimsTree :=
  match createCredentialTree poseidon unixTs credential none with
  | .ok tree => tree
  | .error _ => ClaimsTree.new none

theorem tree_ok : createCredentialTree poseidon unixTs credential none = .ok tree :=
  ok_of_isOk (by decide +kernel) (ClaimsTree.new none)

theorem collisionFree :
    CollisionFree poseidon (credentialHashed poseidon unixTs credential none) := by
  decide +kernel

end SelfieSample

/-! ## A subject that states it -/

namespace StatedSample

def issuerHash : ℕ :=
  2170037769109341343384676891568410710074181851052954689685278528817235974362

def typeHash : ℕ :=
  3028588025382610005216221262292805189481215542012020502656702320878511035329

def leaf0 : ℕ :=
  14137066654378271003413790309938080607729964597421806115764401400698965301747

def leaf1 : ℕ :=
  18015149026733930710781679290464447864680532278217952360078706806745778577555

def node0 : ℕ :=
  16462907156310220778119724766631003550546828607724801710502717192460603934277

def leaf2 : ℕ :=
  10417405233483632825679488846109701450818109845366927044338015291426152536256

def node1 : ℕ :=
  19590118257481092184083189587168479524021857066896249604714386350287922175735

def node2 : ℕ :=
  15491092669608865120020136744404491426017724220787885573152389350281493281840

def leaf3 : ℕ :=
  20175407891190545263862598074238794054269911173794871663337086515033052388536

def node3 : ℕ :=
  13397822440761033822626966775890854955661422521614453158673852568440515056991

def node4 : ℕ :=
  20107633422523923624932161569882587362533805044381582896942766149698629935363

def leaf4 : ℕ :=
  11083747191222584572739221135156870259237869002555281464223702928279122483065

def node5 : ℕ :=
  1784283536177609519847894082125628494292044824678439269615954578253658882868

def node6 : ℕ :=
  1653635675751807771228159222609844884295377158363403769614946143898211680989

def node7 : ℕ :=
  19123859205660348514272341359978476405316996474034988781618723702420498838572

def leaf5 : ℕ :=
  6911987650482970091439042100204572391440141749277177054542227310153804917378

def node8 : ℕ :=
  21104768063934465111749200550460787706797163234696652028045408926457762993975

def node9 : ℕ :=
  895116846819147263529933751395364598173772634595782123252069999829894469638

def node10 : ℕ :=
  9243548675278066742773125606746979222340778661368947831222812096577310116623

def leaf6 : ℕ :=
  10206248576009392633806689289102638789391842852880399382608230570643303658404

def node11 : ℕ :=
  15373605613853017982667944534285172452391726790494067289324524385013990063871

def node12 : ℕ :=
  18932718464987516593213911544176517256626140720967626414393804452865756290086

def node13 : ℕ :=
  42151446146413546538673059260021010218254912918033415953183314551339636531

def leaf7 : ℕ :=
  5565612574693655722094800419355225213059286427997723456289017699237666498896

def node14 : ℕ :=
  14712507152141430250878253906652019694950545663137767930352152575487233721404

def node15 : ℕ :=
  3489355531004965231767492649289415608416282151629256084886931976062604932084

def node16 : ℕ :=
  5719899512193430498985538572885947301312762204968806381773698404357767330985

/-- The pieces of a text in a frame. -/
def twoPieces (first second : ℕ) : List ℕ := first :: second :: List.replicate 14 0

/-- Poseidon on the two texts and on the nodes of the tree below. -/
def table : List (List ℕ × ℕ) :=
  [(twoPieces 177412091996147751907308859548822987190773304040990861504943839461072593778
      179144462764150311617563929326458934628373896946485373980661321061900484608, issuerHash),
    (twoPieces 147458761492569668338679798544387495195100386740986341634438577381680967284
      186191322871609091562725232934276713750886319553838152480447375175340523520, typeHash),
    ([0, issuerHash, 1], leaf0), ([1, typeHash, 1], leaf1), ([leaf0, leaf1], node0),
    ([2, issuerHash, 1], leaf2), ([leaf0, leaf2], node1), ([node1, leaf1], node2),
    ([3, 1953658213, 1], leaf3), ([leaf1, leaf3], node3), ([node1, node3], node4),
    ([4, 48, 1], leaf4), ([leaf0, leaf4], node5), ([node5, leaf2], node6),
    ([node6, node3], node7), ([5, 48, 1], leaf5), ([leaf1, leaf5], node8),
    ([node8, leaf3], node9), ([node6, node9], node10), ([6, typeHash, 1], leaf6),
    ([leaf2, leaf6], node11), ([node5, node11], node12), ([node12, node9], node13),
    ([7, 1953658213, 1], leaf7), ([leaf3, leaf7], node14), ([node8, node14], node15),
    ([node12, node15], node16)]

def poseidon (inputs : List ℕ) : ℕ := (table.lookup inputs).getD 0

def issuer : String := "did:web:issuer.albus.finance:credentials"

def type : String := "SumsubSelfieVerificationCredential"

/-- A credential whose subject has the issuer and the type under the names of the
    metadata. -/
def credential : W3CCredential where
  issuer := .text issuer
  validUntil := none
  validFrom := none
  issuanceDate := none
  type := ["VerifiableCredential", type]
  credentialSubject :=
    .cons "meta.issuer" (.scalar issuer) (.cons "meta.type" (.scalar type) .nil)

def tree : ClaimsTree :=
  match createCredentialTree poseidon SelfieSample.unixTs credential none with
  | .ok tree => tree
  | .error _ => ClaimsTree.new none

theorem tree_ok :
    createCredentialTree poseidon SelfieSample.unixTs credential none = .ok tree :=
  ok_of_isOk (by decide +kernel) (ClaimsTree.new none)

theorem collisionFree :
    CollisionFree poseidon (credentialHashed poseidon SelfieSample.unixTs credential none) := by
  decide +kernel

theorem states : SubjectStates poseidon SelfieSample.unixTs credential where
  issuer := ⟨issuer, by decide +kernel, by decide +kernel⟩
  type := ⟨type, by decide +kernel, by decide +kernel⟩
  validUntil := by decide +kernel
  validFrom := by decide +kernel

end StatedSample

/-- For the selfie credential both sides are false; a subject that states its metadata
    has it provable. -/
theorem metadata_provable_selfie :
    (MetadataProvable SelfieSample.poseidon SelfieSample.unixTs SelfieSample.credential
        SelfieSample.tree ↔
      SubjectStates SelfieSample.poseidon SelfieSample.unixTs SelfieSample.credential) ∧
    MetadataProvable StatedSample.poseidon SelfieSample.unixTs StatedSample.credential
      StatedSample.tree :=
  ⟨metadata_provable_iff SelfieSample.collisionFree SelfieSample.tree_ok,
    (metadata_provable_iff StatedSample.collisionFree StatedSample.tree_ok).mpr
      StatedSample.states⟩

open SelfieSample in
/-- **ITS METADATA IS NOT PROVABLE**: no claim is called `meta.issuer`, and the builder
    throws on the private signal `meta_issuer`. -/
theorem metadata_provable_fails :
    (credential.issuerId ≠ "" ∧ credential.lastType = "SumsubSelfie") ∧
    createCredentialTree poseidon unixTs credential none = .ok tree ∧
    CollisionFree poseidon (credentialHashed poseidon unixTs credential none) ∧
    ¬ MetadataProvable poseidon unixTs credential tree ∧
    ∀ known, applyPrivateSignal known (some tree) (parseSignal "meta_issuer")
      = .error (.error "claim \"meta.issuer\" is not found in the credential") := by
  have hget : ∃ proof ∈ (tree.get "meta.issuer").toOption, proof.found = false := by
    decide +kernel
  obtain ⟨proof, hproof, hfound⟩ := hget
  refine ⟨⟨by decide, rfl⟩, tree_ok, collisionFree, ?_, ?_⟩
  · intro h
    obtain ⟨proof', hproof', hfound', -⟩ := h.issuer.stores
    obtain rfl := Option.some.inj ((Option.mem_def.mp hproof).symm.trans hproof')
    exact Bool.false_ne_true (hfound.symm.trans hfound')
  · intro known
    have hkey : normalizeClaimKey (parseSignal "meta_issuer").name = "meta.issuer" := by
      decide
    cases h : tree.get "meta.issuer" with
    | error e =>
        rw [h] at hproof
        exact nomatch hproof
    | ok proof' =>
        rw [h] at hproof
        obtain rfl := Option.some.inj hproof
        show applyCredentialSignal (some tree) (parseSignal "meta_issuer") true = _
        simp only [applyCredentialSignal, hkey, h, hfound, and_self, if_true]
        rfl

end Albus.Sdk
