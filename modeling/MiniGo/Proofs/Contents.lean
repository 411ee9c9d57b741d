import MiniGo.Proofs.Safety
/-!
Slices, maps and channels keep the types of their contents.
-/

namespace MiniGo

variable {strict : Prop}

namespace Shape

def withSlice (shape : Shape strict) (ref : SliceRef) (elem : Ty) : Shape strict :=
  { shape with slice := fun other => if other = ref then some elem else shape.slice other }

theorem grows_withSlice (shape : Shape strict) {ref : SliceRef} (elem : Ty)
    (fresh : shape.slice ref = none) : shape.Grows (shape.withSlice ref elem) :=
  { Grows.refl shape with
    slice := by
      intro other found present
      simp only [withSlice]
      split
      · rename_i same
        simp [same, fresh] at present
      · exact present }

def withMap (shape : Shape strict) (ref : MapRef) (types : Ty × Ty) : Shape strict :=
  { shape with map := fun other => if other = ref then some types else shape.map other }

theorem grows_withMap (shape : Shape strict) {ref : MapRef} (types : Ty × Ty)
    (fresh : shape.map ref = none) : shape.Grows (shape.withMap ref types) :=
  { Grows.refl shape with
    map := by
      intro other found present
      simp only [withMap]
      split
      · rename_i same
        simp [same, fresh] at present
      · exact present }

def withChan (shape : Shape strict) (ref : ChanRef) (elem : Ty) : Shape strict :=
  { shape with chan := fun other => if other = ref then some elem else shape.chan other }

theorem grows_withChan (shape : Shape strict) {ref : ChanRef} (elem : Ty)
    (fresh : shape.chan ref = none) : shape.Grows (shape.withChan ref elem) :=
  { Grows.refl shape with
    chan := by
      intro other found present
      simp only [withChan]
      split
      · rename_i same
        simp [same, fresh] at present
      · exact present }

def withClaim (shape : Shape strict) (ref : ClaimRef) (sends : List Nat) : Shape strict :=
  { shape with claim := fun other => if other = ref then some sends else shape.claim other }

theorem grows_withClaim (shape : Shape strict) {ref : ClaimRef} (sends : List Nat)
    (fresh : shape.claim ref = none) : shape.Grows (shape.withClaim ref sends) :=
  { Grows.refl shape with
    claim := by
      intro other found present
      simp only [withClaim]
      split
      · rename_i same
        simp [same, fresh] at present
      · exact present }

end Shape

namespace MapKey

theorem less_int {left right : Int64} : (int left).less (int right) = true ↔ left < right :=
  decide_eq_true_iff

theorem less_str {left right : String} : (str left).less (str right) = true ↔ left < right :=
  decide_eq_true_iff

theorem less_trans {first second third : MapKey} (left : first.less second = true)
    (right : second.less third = true) : first.less third = true := by
  cases first with
  | bool first => cases second <;> cases third <;> simp_all [less]
  | int first =>
    cases second with
    | bool second => cases left
    | int second =>
      cases third with
      | bool third => cases right
      | int third => exact less_int.mpr (Int64.lt_trans (less_int.mp left) (less_int.mp right))
      | str third => rfl
    | str second =>
      cases third with
      | bool | int => cases right
      | str third => rfl
  | str first =>
    cases second with
    | bool | int => cases left
    | str second =>
      cases third with
      | bool | int => cases right
      | str third => exact less_str.mpr (String.lt_trans (less_str.mp left) (less_str.mp right))

theorem less_of_not_less {first second : MapKey} (differs : first ≠ second)
    (notLess : ¬first.less second = true) : second.less first = true := by
  cases first with
  | bool left => cases second <;> cases left <;> simp_all [less]
  | int left =>
    cases second with
    | int right =>
      have apart : left ≠ right := fun same => differs (congrArg int same)
      rw [less_int] at notLess ⊢
      exact (Int64.lt_or_lt_of_ne apart).resolve_left notLess
    | bool => rfl
    | str => exact absurd rfl notLess
  | str left =>
    cases second with
    | str right =>
      have apart : right ≠ left := fun same => differs (congrArg str same.symm)
      rw [less_str] at notLess ⊢
      exact Std.lt_of_le_of_ne (String.not_lt.mp notLess) apart
    | bool | int => rfl

end MapKey

namespace Entries.Ascending

variable {entries : Entries}

theorem cons {key : MapKey} {value : Value} :
    Entries.Ascending ((key, value) :: entries) ↔
      (∀ entry ∈ entries, key.less entry.1 = true) ∧ entries.Ascending := by
  simp [Entries.Ascending, Entries.keys]

theorem mem_insert {key : MapKey} {value : Value} {entry : MapKey × Value}
    (member : entry ∈ Entries.insert key value entries) : entry = (key, value) ∨ entry ∈ entries := by
  induction entries with
  | nil => simpa [Entries.insert] using member
  | cons first rest ih =>
    obtain ⟨head, former⟩ := first
    simp only [Entries.insert] at member
    split at member
    · exact List.mem_cons.mp member
    · split at member
      · exact (List.mem_cons.mp member).imp_right (List.mem_cons_of_mem _)
      · rcases List.mem_cons.mp member with rfl | member
        · exact .inr (.head _)
        · exact (ih member).imp_right (List.mem_cons_of_mem _)

theorem insert (ascending : entries.Ascending) (key : MapKey) (value : Value) :
    (Entries.insert key value entries).Ascending := by
  induction entries with
  | nil => simp [Entries.insert, Ascending, keys]
  | cons entry rest ih =>
    obtain ⟨head, former⟩ := entry
    obtain ⟨first, others⟩ := cons.mp ascending
    simp only [Entries.insert]
    split
    · rename_i before
      refine cons.mpr ⟨List.forall_mem_cons.mpr ⟨before, fun entry member => ?_⟩, ascending⟩
      exact MapKey.less_trans before (first entry member)
    · rename_i notBefore
      split
      · rename_i same
        exact cons.mpr ⟨same ▸ first, others⟩
      · rename_i differs
        refine cons.mpr ⟨fun entry member => ?_, ih others⟩
        rcases mem_insert member with rfl | member
        · exact MapKey.less_of_not_less differs notBefore
        · exact first entry member

theorem erase (ascending : entries.Ascending) (key : MapKey) :
    (Entries.erase key entries).Ascending :=
  ascending.sublist (List.filter_sublist.map _)

end Entries.Ascending

variable [Natives]

namespace Heap.Sound

variable {shape : Shape strict} {heap : Heap}

theorem slice_fresh (sound : heap.Sound shape) : shape.slice ⟨heap.slices.size⟩ = none := by
  cases found : shape.slice ⟨heap.slices.size⟩ with
  | none => rfl
  | some elem =>
    obtain ⟨items, present, _⟩ := sound.slices _ elem found
    simp at present

theorem map_fresh (sound : heap.Sound shape) : shape.map ⟨heap.maps.size⟩ = none := by
  cases found : shape.map ⟨heap.maps.size⟩ with
  | none => rfl
  | some types =>
    obtain ⟨_, entries, present, _⟩ := sound.maps _ types.1 types.2 found
    simp at present

theorem items (sound : heap.Sound shape) {ref : SliceRef} {elem : Ty}
    (known : shape.slice ref = some elem) :
    ∀ value ∈ heap.items ref, value.Inhabits shape elem := by
  obtain ⟨items, present, inhabit⟩ := sound.slices ref elem known
  simpa [Heap.items, Array.getD_eq_getD_getElem?, present] using inhabit

theorem entries (sound : heap.Sound shape) {ref : MapRef} {key elem : Ty}
    (known : shape.map ref = some (key, elem)) : (heap.entries ref).Sound shape key elem := by
  obtain ⟨_, entries, present, inhabit⟩ := sound.maps ref key elem known
  simpa [Heap.entries, Array.getD_eq_getD_getElem?, present] using inhabit

theorem ascending (sound : heap.Sound shape) (ref : MapRef) : (heap.entries ref).Ascending := by
  simp only [Heap.entries, Array.getD_eq_getD_getElem?]
  cases found : heap.maps[ref.index]? with
  | none => exact List.Pairwise.nil
  | some entries => exact sound.ordered entries (Array.mem_of_getElem? found)

theorem newSlice (sound : heap.Sound shape) {elem : Ty} {items : Array Value}
    (inhabit : ∀ value ∈ items, value.Inhabits shape elem) :
    (heap.newSlice items).2.Sound (shape.withSlice ⟨heap.slices.size⟩ elem) := by
  have grown := shape.grows_withSlice elem sound.slice_fresh
  refine ⟨?_, fun ref items kept => ?_, fun ref size noted => ?_, ?_, sound.ordered⟩
  · intro ref found known
    simp only [Shape.withSlice] at known
    split at known
    · rename_i isNew
      obtain rfl := Option.some.inj known
      refine ⟨items, by simp [Heap.newSlice, isNew], fun value member => ?_⟩
      exact (inhabit value member).grows grown
    · obtain ⟨old, present, holds⟩ := sound.slices ref found known
      refine ⟨old, ?_, fun value member => (holds value member).grows grown⟩
      have inside := (Array.getElem?_eq_some_iff.mp present).1
      simp only [Heap.newSlice, Array.getElem?_push]
      rw [if_neg (by omega)]
      exact present
  · obtain ⟨unknown, present⟩ := sound.keys ref items kept
    have inside := (Array.getElem?_eq_some_iff.mp present).1
    have isOld : ref ≠ ⟨heap.slices.size⟩ := by
      rintro rfl
      exact Nat.lt_irrefl _ inside
    refine ⟨by simp [Shape.withSlice, isOld, unknown], ?_⟩
    simp only [Heap.newSlice, Array.getElem?_push]
    rw [if_neg (by omega)]
    exact present
  · obtain ⟨old, present, isSize⟩ := sound.lengths ref size noted
    have inside := (Array.getElem?_eq_some_iff.mp present).1
    refine ⟨old, ?_, isSize⟩
    simp only [Heap.newSlice, Array.getElem?_push]
    rw [if_neg (by omega)]
    exact present
  · intro ref key found known
    obtain ⟨isKey, entries, present, holds⟩ := sound.maps ref key found known
    exact ⟨isKey, entries, present, holds.grows grown⟩

theorem setItem (sound : heap.Sound shape) {ref : SliceRef} {elem : Ty} {index : Int64}
    {value : Value} {changed : Heap} (known : shape.slice ref = some elem)
    (inhabits : value.Inhabits shape elem) (set : heap.setItem ref index value = .ok changed) :
    changed.Sound shape := by
  simp only [Heap.setItem, bind, Except.bind] at set
  split at set
  · simp at set
  · rename_i position _
    obtain rfl := Except.ok.inj set
    refine ⟨fun other found otherKnown => ?_, fun other items kept => ?_, fun other size noted => ?_,
      sound.maps, sound.ordered⟩
    rotate_left 2
    · obtain ⟨items, present, isSize⟩ := sound.lengths other size noted
      simp only [Array.getElem?_modify]
      split
      · exact ⟨items.setIfInBounds position value, by simp [present], by simpa using isSize⟩
      · exact ⟨items, present, isSize⟩
    rotate_left
    · obtain ⟨unknown, present⟩ := sound.keys other items kept
      refine ⟨unknown, ?_⟩
      simp only [Array.getElem?_modify]
      split
      · rename_i same
        obtain rfl : other = ref := by
          cases ref
          cases other
          simp_all
        simp [known] at unknown
      · exact present
    obtain ⟨items, present, holds⟩ := sound.slices other found otherKnown
    simp only [Array.getElem?_modify]
    split
    · rename_i same
      have isSame : other = ref := by
        cases ref
        cases other
        simp_all
      subst isSame
      obtain rfl := Option.some.inj (known.symm.trans otherKnown)
      refine ⟨items.setIfInBounds position value, by simp [present], fun found member => ?_⟩
      rcases Array.mem_or_eq_of_mem_setIfInBounds member with member | rfl
      · exact holds found member
      · exact inhabits
    · exact ⟨items, present, holds⟩

theorem newMap (sound : heap.Sound shape) {key elem : Ty} (isKey : strict → key.isKey = true) :
    heap.newMap.2.Sound (shape.withMap ⟨heap.maps.size⟩ (key, elem)) := by
  have grown := shape.grows_withMap (key, elem) sound.map_fresh
  refine ⟨?_, sound.keys, sound.lengths, ?_, fun entries member => ?_⟩
  rotate_right
  · rcases Array.mem_push.mp member with member | rfl
    · exact sound.ordered entries member
    · exact List.Pairwise.nil
  · intro ref found known
    obtain ⟨items, present, holds⟩ := sound.slices ref found known
    exact ⟨items, present, fun value member => (holds value member).grows grown⟩
  · intro ref foundKey found known
    simp only [Shape.withMap] at known
    split at known
    · rename_i isNew
      obtain ⟨rfl, rfl⟩ := Prod.mk.inj (Option.some.inj known)
      exact ⟨isKey, [], by simp [Heap.newMap, isNew], by simp [Entries.Sound]⟩
    · obtain ⟨isKey, entries, present, holds⟩ := sound.maps ref foundKey found known
      refine ⟨isKey, entries, ?_, holds.grows grown⟩
      have inside := (Array.getElem?_eq_some_iff.mp present).1
      simp only [Heap.newMap, Array.getElem?_push]
      rw [if_neg (by omega)]
      exact present

theorem setEntries (sound : heap.Sound shape) {ref : MapRef} {key elem : Ty} {entries : Entries}
    (known : shape.map ref = some (key, elem)) (holds : entries.Sound shape key elem)
    (ascending : entries.Ascending) : (heap.setEntries ref entries).Sound shape := by
  refine ⟨sound.slices, sound.keys, sound.lengths, fun other foundKey found otherKnown => ?_,
    fun others member => ?_⟩
  rotate_right
  · rcases Array.mem_or_eq_of_mem_setIfInBounds member with member | rfl
    · exact sound.ordered others member
    · exact ascending
  obtain ⟨isKey, old, present, oldHolds⟩ := sound.maps other foundKey found otherKnown
  refine ⟨isKey, ?_⟩
  by_cases same : other = ref
  · subst same
    obtain ⟨rfl, rfl⟩ := Prod.mk.inj (Option.some.inj (known.symm.trans otherKnown))
    have inside := (Array.getElem?_eq_some_iff.mp present).1
    exact ⟨entries, by simp [Heap.setEntries, inside], holds⟩
  · have differs : ref.index ≠ other.index := by
      intro equal
      apply same
      cases ref
      cases other
      simp_all
    exact ⟨old, by simp [Heap.setEntries, differs, present], oldHolds⟩

end Heap.Sound

namespace Entries.Sound

variable {shape : Shape strict} {key elem : Ty} {entries : Entries}

theorem get? (sound : entries.Sound shape key elem) {wanted : MapKey} {value : Value}
    (found : entries.get? wanted = some value) : value.Inhabits shape elem := by
  obtain ⟨before, after, same, _⟩ := List.lookup_eq_some_iff.mp found
  exact (sound (wanted, value) (by simp [same])).2

theorem insert (sound : entries.Sound shape key elem) {wanted : MapKey} {value : Value}
    (is : strict → wanted.toValue.Is key) (inhabits : value.Inhabits shape elem) :
    (Entries.insert wanted value entries).Sound shape key elem := by
  induction entries with
  | nil => simpa [Entries.insert, Sound] using ⟨is, inhabits⟩
  | cons entry rest ih =>
    rcases entry with ⟨head, former⟩
    have tail := ih fun entry member => sound entry (by simp [member])
    have first := sound (head, former) (by simp)
    simp only [Entries.insert]
    split
    · exact List.forall_mem_cons.mpr ⟨⟨is, inhabits⟩, sound⟩
    · split
      · exact List.forall_mem_cons.mpr
          ⟨⟨is, inhabits⟩, fun entry member => sound entry (by simp [member])⟩
      · exact List.forall_mem_cons.mpr ⟨first, tail⟩

theorem erase (sound : entries.Sound shape key elem) (wanted : MapKey) :
    (Entries.erase wanted entries).Sound shape key elem :=
  fun entry member => sound entry (List.mem_filter.mp member).1

end Entries.Sound

namespace MapKey

omit [Natives] in
theorem ofValue_of_is {value : Value} {key : Ty} (is : value.Is key) (isKey : key.isKey = true) :
    ∃ found, ofValue value = .ok found ∧ found.toValue = value := by
  cases key <;> simp [Ty.isKey] at isKey
  · obtain ⟨truth, rfl⟩ := is.eq_bool
    exact ⟨.bool truth, rfl, rfl⟩
  · obtain ⟨number, rfl⟩ := is.eq_int
    exact ⟨.int number, rfl, rfl⟩
  · obtain ⟨text, rfl⟩ := is.eq_str
    exact ⟨.str text, rfl, rfl⟩

omit [Natives] in
theorem toValue_of_ofValue {value : Value} {found : MapKey} (isKey : ofValue value = .ok found) :
    found.toValue = value := by
  unfold ofValue at isKey
  split at isKey
  · obtain rfl := Except.ok.inj isKey
    rfl
  · obtain rfl := Except.ok.inj isKey
    rfl
  · obtain rfl := Except.ok.inj isKey
    rfl
  · simp [throw, throwThe, MonadExceptOf.throw] at isKey

omit [Natives] in
theorem ofValue_allowed {value : Value} {key : Ty} (is : strict → value.Is key)
    (isKey : strict → key.isKey = true) {error : RuntimeError} (fails : ofValue value = .error error) :
    error.Allowed strict := by
  intro isStrict
  obtain ⟨found, succeeds, _⟩ := ofValue_of_is (is isStrict) (isKey isStrict)
  simp [succeeds] at fails

end MapKey

namespace Exchange.Sound

variable {shape : Shape strict} {exchange : Exchange} {ref : ChanRef} {elem : Ty}

theorem chan_fresh (sound : exchange.Sound shape) : shape.chan ⟨exchange.channels.size⟩ = none := by
  cases found : shape.chan ⟨exchange.channels.size⟩ with
  | none => rfl
  | some elem =>
    obtain ⟨items, present, _⟩ := sound.channels _ elem found
    simp at present

theorem claim_fresh (sound : exchange.Sound shape) : shape.claim ⟨exchange.claims.size⟩ = none := by
  cases found : shape.claim ⟨exchange.claims.size⟩ with
  | none => rfl
  | some sends =>
    obtain ⟨claim, present, _⟩ := sound.claims _ sends found
    simp at present

theorem channel (sound : exchange.Sound shape) (known : shape.chan ref = some elem) :
    (exchange.channel ref).Sound shape elem := by
  obtain ⟨channel, present, holds⟩ := sound.channels ref elem known
  simpa [Exchange.channel, Array.getD_eq_getD_getElem?, present] using holds

theorem update (sound : exchange.Sound shape) {change : Channel → Channel}
    (keeps : ∀ elem channel, shape.chan ref = some elem → exchange.channel ref = channel →
      channel.Sound shape elem → (change channel).Sound shape elem) :
    (exchange.update ref change).Sound shape := by
  refine ⟨fun other found known => ?_, sound.claims⟩
  obtain ⟨channel, present, holds⟩ := sound.channels other found known
  simp only [Exchange.update, Array.getElem?_modify]
  split
  · rename_i same
    have isSame : other = ref := by
      cases ref
      cases other
      simp_all
    subst isSame
    refine ⟨change channel, by simp [present], keeps found channel known ?_ holds⟩
    simp [Exchange.channel, Array.getD_eq_getD_getElem?, present]
  · exact ⟨channel, present, holds⟩

theorem notify (sound : exchange.Sound shape) : exchange.notify.Sound shape :=
  ⟨sound.channels, sound.claims⟩

theorem push (sound : exchange.Sound shape) (known : shape.chan ref = some elem) {value : Value}
    (inhabits : value.Inhabits shape elem) : (exchange.update ref (·.push value)).Sound shape := by
  refine sound.update fun found channel foundKnown _ holds => ?_
  obtain rfl := Option.some.inj (known.symm.trans foundKnown)
  refine ⟨?_, holds.offers⟩
  intro item member
  rcases List.mem_append.mp member with old | new
  · exact holds.buffer item old
  · rw [List.mem_singleton.mp new]
    exact inhabits

theorem send (sound : exchange.Sound shape) (known : shape.chan ref = some elem) {value : Value}
    (inhabits : value.Inhabits shape elem) {ticket : Nat} {changed : Exchange}
    (sent : exchange.send ref value = .ok (ticket, changed)) : changed.Sound shape := by
  simp only [Exchange.send] at sent
  split at sent
  · simp [throw, throwThe, MonadExceptOf.throw] at sent
  · obtain ⟨_, rfl⟩ := Prod.mk.inj (Except.ok.inj sent)
    exact (sound.push known inhabits).notify

theorem trySend (sound : exchange.Sound shape) (known : shape.chan ref = some elem) {value : Value}
    (inhabits : value.Inhabits shape elem) {did : Bool} {changed : Exchange}
    (sent : exchange.trySend ref value = .ok (did, changed)) : changed.Sound shape := by
  simp only [Exchange.trySend] at sent
  split at sent
  · simp [throw, throwThe, MonadExceptOf.throw] at sent
  · split at sent
    · obtain ⟨_, rfl⟩ := Prod.mk.inj (Except.ok.inj sent)
      exact (sound.push known inhabits).notify
    · obtain ⟨_, rfl⟩ := Prod.mk.inj (Except.ok.inj sent)
      exact sound

theorem take (sound : exchange.Sound shape) (known : shape.chan ref = some elem) :
    (exchange.take ref).2.Sound shape ∧
      ∀ value ∈ (exchange.take ref).1, value.Inhabits shape elem := by
  have holds := sound.channel known
  unfold Exchange.take
  split
  · exact ⟨sound, by simp⟩
  · rename_i value rest isBuffer
    constructor
    · refine Exchange.Sound.notify (sound.update fun found channel foundKnown same holds => ?_)
      refine ⟨fun item member => holds.buffer item ?_, holds.offers⟩
      rw [← same, isBuffer]
      exact List.mem_cons_of_mem _ member
    · intro item isItem
      obtain rfl := Option.some.inj isItem
      exact holds.buffer value (by simp [isBuffer])

omit [Natives] in
theorem firstUnclaimed {offers : List Offer} {offer : Offer} {rest : List Offer}
    (found : exchange.firstUnclaimed offers = some (offer, rest)) :
    offer ∈ offers ∧ rest ⊆ offers := by
  induction offers with
  | nil => simp [Exchange.firstUnclaimed] at found
  | cons head tail ih =>
    simp only [Exchange.firstUnclaimed] at found
    split at found
    · obtain ⟨rfl, rfl⟩ := Prod.mk.inj (Option.some.inj found)
      exact ⟨by simp, List.subset_cons_self _ _⟩
    · obtain ⟨member, inside⟩ := ih found
      exact ⟨List.mem_cons_of_mem _ member, fun item isItem => List.mem_cons_of_mem _ (inside isItem)⟩

theorem claimOffer (sound : exchange.Sound shape) (known : shape.chan ref = some elem) :
    (exchange.claimOffer ref).2.Sound shape ∧
      ∀ value ∈ (exchange.claimOffer ref).1, value.Inhabits shape elem := by
  have holds := sound.channel known
  unfold Exchange.claimOffer
  split
  · exact ⟨sound.update fun _ _ _ _ holds => ⟨holds.buffer, by simp⟩, by simp⟩
  · rename_i offer rest isFirst
    obtain ⟨member, inside⟩ := firstUnclaimed isFirst
    have offerSound := holds.offers offer member
    obtain ⟨sends, claimKnown, isSend⟩ := offerSound.case
    have shorter : (exchange.update ref ({ · with offers := rest })).Sound shape := by
      refine sound.update fun _ channel _ same holds => ⟨holds.buffer, fun other isOther => ?_⟩
      exact holds.offers other (same ▸ inside isOther)
    constructor
    · refine Exchange.Sound.notify ⟨shorter.channels, fun claim found foundKnown => ?_⟩
      obtain ⟨old, present, holds⟩ := shorter.claims claim found foundKnown
      by_cases same : claim = offer.claim
      · subst same
        obtain rfl := Option.some.inj (claimKnown.symm.trans foundKnown)
        have inBounds := (Array.getElem?_eq_some_iff.mp present).1
        refine ⟨some offer.case, by simp [inBounds], ?_⟩
        intro case isCase
        obtain rfl := Option.some.inj isCase
        exact isSend
      · have differs : offer.claim.index ≠ claim.index := by
          intro equal
          apply same
          cases isClaim : offer.claim
          cases claim
          simp_all
        exact ⟨old, by simp [differs, present], holds⟩
    · intro value isValue
      obtain rfl := Option.some.inj isValue
      exact offerSound.value

theorem enterRecv (sound : exchange.Sound shape) : (exchange.enterRecv ref).Sound shape :=
  Exchange.Sound.notify (sound.update fun _ _ _ _ holds => ⟨holds.buffer, holds.offers⟩)

theorem leaveRecv (sound : exchange.Sound shape) (known : shape.chan ref = some elem) :
    (exchange.leaveRecv ref).2.Sound shape ∧
      ∀ value ∈ (exchange.leaveRecv ref).1, value.Inhabits shape elem := by
  have left : (exchange.update ref fun channel =>
      { channel with waiting := channel.waiting - 1 }).Sound shape :=
    sound.update fun _ _ _ _ holds => ⟨holds.buffer, holds.offers⟩
  unfold Exchange.leaveRecv
  dsimp only
  split
  · exact left.take known
  · exact left.claimOffer known

theorem tryRecv (sound : exchange.Sound shape) (known : shape.chan ref = some elem) :
    (exchange.tryRecv ref).2.Sound shape ∧
      ∀ found ∈ (exchange.tryRecv ref).1, ∀ value ∈ found, value.Inhabits shape elem := by
  unfold Exchange.tryRecv
  split
  · have taken := sound.take known
    exact ⟨taken.1, by simpa using taken.2⟩
  · have claimed := sound.claimOffer known
    refine ⟨claimed.1, ?_⟩
    simpa using claimed.2

theorem close (sound : exchange.Sound shape) {changed : Exchange}
    (closed : exchange.close ref = .ok changed) : changed.Sound shape := by
  unfold Exchange.close at closed
  split at closed
  · simp [throw, throwThe, MonadExceptOf.throw] at closed
  · obtain rfl := Except.ok.inj closed
    exact Exchange.Sound.notify (sound.update fun _ _ _ _ holds => ⟨holds.buffer, holds.offers⟩)

theorem newChannel (sound : exchange.Sound shape) (elem : Ty) (capacity : Nat) :
    (exchange.newChannel capacity).2.Sound (shape.withChan ⟨exchange.channels.size⟩ elem) := by
  have grown := shape.grows_withChan elem sound.chan_fresh
  refine ⟨fun ref found known => ?_, sound.claims⟩
  simp only [Shape.withChan] at known
  split at known
  · rename_i isNew
    exact ⟨{ capacity }, by simp [Exchange.newChannel, isNew], by simp, by simp⟩
  · obtain ⟨channel, present, holds⟩ := sound.channels ref found known
    refine ⟨channel, ?_, holds.grows grown⟩
    have inside := (Array.getElem?_eq_some_iff.mp present).1
    simp only [Exchange.newChannel, Array.getElem?_push]
    rw [if_neg (by omega)]
    exact present

theorem newClaim (sound : exchange.Sound shape) (sends : List Nat) :
    exchange.newClaim.2.Sound (shape.withClaim ⟨exchange.claims.size⟩ sends) := by
  have grown := shape.grows_withClaim sends sound.claim_fresh
  constructor
  · intro ref found known
    obtain ⟨channel, present, holds⟩ := sound.channels ref found known
    exact ⟨channel, present, holds.grows grown⟩
  · intro ref found known
    simp only [Shape.withClaim] at known
    split at known
    · rename_i isNew
      exact ⟨none, by simp [Exchange.newClaim, isNew], by simp⟩
    · obtain ⟨claim, present, holds⟩ := sound.claims ref found known
      refine ⟨claim, ?_, holds⟩
      have inside := (Array.getElem?_eq_some_iff.mp present).1
      simp only [Exchange.newClaim, Array.getElem?_push]
      rw [if_neg (by omega)]
      exact present

theorem offer (sound : exchange.Sound shape) (known : shape.chan ref = some elem) {offer : Offer}
    (offered : offer.Sound shape elem) (announce : Bool) :
    (exchange.offer ref offer announce).Sound shape := by
  have added : (exchange.update ref fun channel =>
      { channel with offers := channel.offers ++ [offer] }).Sound shape := by
    refine sound.update fun found channel foundKnown _ holds => ⟨holds.buffer, ?_⟩
    obtain rfl := Option.some.inj (known.symm.trans foundKnown)
    intro other member
    rcases List.mem_append.mp member with old | new
    · exact holds.offers other old
    · rw [List.mem_singleton.mp new]
      exact offered
  unfold Exchange.offer
  split
  · exact sound
  · dsimp only
    split
    · exact added.notify
    · exact added

theorem withdraw (sound : exchange.Sound shape) (ref : ChanRef) (claim : ClaimRef) :
    (exchange.withdraw ref claim).Sound shape :=
  sound.update fun _ _ _ _ holds =>
    ⟨holds.buffer, fun offer member => holds.offers offer (List.mem_filter.mp member).1⟩

theorem claimed? (sound : exchange.Sound shape) {claim : ClaimRef} {sends : List Nat} {case : Nat}
    (known : shape.claim claim = some sends) (claimed : exchange.claimed? claim = some case) :
    case ∈ sends := by
  obtain ⟨found, present, holds⟩ := sound.claims claim sends known
  simp only [Exchange.claimed?, Array.getD_eq_getD_getElem?, present, Option.getD_some] at claimed
  exact holds case claimed

end Exchange.Sound

def SelectCase.Sound (shape : Shape strict) : SelectCase → Prop
  | .send ref value => ∃ elem, shape.chan ref = some elem ∧ value.Inhabits shape elem
  | .recv elem ref => shape.chan ref = some elem
  | .never => True

def SelectCase.isSend : SelectCase → Bool
  | .send .. => true
  | _ => false

theorem SelectCase.Sound.grows {before after : Shape strict} {case : SelectCase}
    (sound : case.Sound before) (grown : before.Grows after) : case.Sound after := by
  cases case with
  | send ref value =>
    obtain ⟨elem, known, inhabits⟩ := sound
    exact ⟨elem, grown.chan _ _ known, inhabits.grows grown⟩
  | recv elem ref => exact grown.chan _ _ sound
  | never => trivial

/-- The outcome of a select is one of its cases, with the value that a receive has got. -/
def Selected.Of (shape : Shape strict) (cases : List SelectCase) (hasDefault : Bool) :
    Selected → Prop
  | .case index received =>
    (∃ case, cases[index]? = some case ∧ case.isSend = true ∧ received = none) ∨
      ∃ elem ref value flag, cases[index]? = some (.recv elem ref) ∧
        received = some (value, flag) ∧ value.Inhabits shape elem
  | .default => hasDefault = true

def SelectCase.sends (cases : List SelectCase) : List Nat :=
  (List.range cases.length).filter fun index => (cases[index]?.map (·.isSend)).getD false

omit [Natives] in
theorem SelectCase.mem_sends {cases : List SelectCase} {index : Nat} :
    index ∈ SelectCase.sends cases ↔ ∃ case, cases[index]? = some case ∧ case.isSend = true := by
  simp only [SelectCase.sends, List.mem_filter, List.mem_range]
  constructor
  · rintro ⟨inside, isSend⟩
    rw [List.getElem?_eq_getElem inside] at isSend ⊢
    exact ⟨_, rfl, by simpa using isSend⟩
  · rintro ⟨case, found, isSend⟩
    exact ⟨(List.getElem?_eq_some_iff.mp found).1, by simp [found, isSend]⟩

theorem received_inhabits {shape : Shape strict} {elem : Ty} {found : Option Value}
    (inhabit : ∀ value ∈ found, value.Inhabits shape elem) :
    (received elem found).1.Inhabits shape elem := by
  cases found with
  | some value => exact inhabit value rfl
  | none => exact ⟨trivial, fun _ => Value.zero_is elem⟩

namespace Exchange.Sound

variable {shape : Shape strict} {exchange : Exchange}

theorem tryCase (sound : exchange.Sound shape) {cases : List SelectCase} {hasDefault : Bool}
    {index : Nat} {case : SelectCase} (found : cases[index]? = some case)
    (caseSound : case.Sound shape) :
    (exchange.tryCase index case).2.Sound shape ∧
      (∀ chosen, (exchange.tryCase index case).1 = .ok (some chosen) →
        chosen.Of shape cases hasDefault) ∧
      ∀ error, (exchange.tryCase index case).1 = .error error → error.Allowed strict := by
  cases case with
  | send ref value =>
    obtain ⟨elem, known, inhabits⟩ := caseSound
    simp only [Exchange.tryCase]
    split
    · rename_i changed sent
      refine ⟨sound.trySend known inhabits sent, ?_, by simp⟩
      intro chosen isChosen
      obtain rfl := Option.some.inj (Except.ok.inj isChosen)
      exact Or.inl ⟨_, found, rfl, rfl⟩
    · rename_i changed sent
      exact ⟨sound.trySend known inhabits sent, by simp, by simp⟩
    · rename_i error failed
      refine ⟨sound, by simp, fun found isFound => ?_⟩
      obtain rfl := Except.error.inj isFound
      simp only [Exchange.trySend] at failed
      split at failed
      · obtain rfl := Except.error.inj failed
        exact fun _ fault => nomatch fault
      · split at failed <;> simp [pure, Except.pure] at failed
  | recv elem ref =>
    have received := @Exchange.Sound.tryRecv _ _ _ _ _ elem sound caseSound
    simp only [Exchange.tryCase]
    refine ⟨received.1, fun chosen isChosen => ?_, by simp⟩
    simp only [Except.ok.injEq, Option.map_eq_some_iff] at isChosen
    obtain ⟨value, isValue, rfl⟩ := isChosen
    exact Or.inr ⟨elem, ref, _, _, found, rfl, received_inhabits (received.2 value isValue)⟩
  | never => exact ⟨sound, by simp [Exchange.tryCase], by simp [Exchange.tryCase]⟩

theorem tryCases (sound : exchange.Sound shape) {cases : List SelectCase} {hasDefault : Bool}
    {entries : List (Nat × SelectCase)}
    (inside : ∀ entry ∈ entries, cases[entry.1]? = some entry.2 ∧ entry.2.Sound shape) :
    (exchange.tryCases entries).2.Sound shape ∧
      (∀ chosen, (exchange.tryCases entries).1 = .ok (some chosen) →
        chosen.Of shape cases hasDefault) ∧
      ∀ error, (exchange.tryCases entries).1 = .error error → error.Allowed strict := by
  induction entries generalizing exchange with
  | nil => exact ⟨sound, by simp [Exchange.tryCases], by simp [Exchange.tryCases]⟩
  | cons entry entries ih =>
    rcases entry with ⟨index, case⟩
    have first := inside (index, case) (by simp)
    have tried := @Exchange.Sound.tryCase _ _ _ _ sound _ hasDefault _ _ first.1 first.2
    simp only [Exchange.tryCases]
    split
    · rename_i changed isTried
      rw [isTried] at tried
      exact ih tried.1 fun entry member => inside entry (by simp [member])
    · exact tried

end Exchange.Sound

/-- A select whose cases can be performed, and whose claim stands for its sends. -/
structure Selecting.Sound (shape : Shape strict) (select : Selecting) : Prop where
  cases : ∀ case ∈ select.cases, case.Sound shape
  claim : shape.claim select.claim = some (SelectCase.sends select.cases)

namespace Selecting.Sound

variable {shape : Shape strict} {select : Selecting} {exchange : Exchange}

theorem grows {after : Shape strict} (sound : select.Sound shape) (grown : shape.Grows after) :
    select.Sound after :=
  ⟨fun case member => (sound.cases case member).grows grown, grown.claim _ _ sound.claim⟩

theorem indexed (sound : select.Sound shape) {entry : Nat × SelectCase}
    (member : entry ∈ select.indexed) :
    select.cases[entry.1]? = some entry.2 ∧ entry.2.Sound shape := by
  simp only [Selecting.indexed, List.mem_map, Prod.exists] at member
  obtain ⟨case, index, found, rfl⟩ := member
  have present := List.mem_zipIdx_iff_getElem?.mp found
  exact ⟨present, sound.cases case (List.mem_of_getElem? present)⟩

theorem rotated (sound : select.Sound shape) {entry : Nat × SelectCase}
    (member : entry ∈ select.rotated) :
    select.cases[entry.1]? = some entry.2 ∧ entry.2.Sound shape := by
  rcases List.mem_append.mp member with late | early
  · exact sound.indexed (List.mem_of_mem_drop late)
  · exact sound.indexed (List.mem_of_mem_take early)

theorem offers (sound : select.Sound shape) {entry : ChanRef × Offer}
    (member : entry ∈ select.offers exchange) :
    ∃ elem, shape.chan entry.1 = some elem ∧ entry.2.Sound shape elem := by
  simp only [Selecting.offers, List.mem_filterMap, Prod.exists] at member
  obtain ⟨index, case, inside, offered⟩ := member
  have present := sound.indexed inside
  split at offered
  · rename_i ref value
    split at offered
    · obtain rfl := Option.some.inj offered
      obtain ⟨elem, known, inhabits⟩ := present.2
      refine ⟨elem, known, inhabits, _, sound.claim, ?_⟩
      exact SelectCase.mem_sends.mpr ⟨_, present.1, rfl⟩
    · simp at offered
  · simp at offered

theorem withdrawn (exchangeSound : exchange.Sound shape) :
    (select.withdrawn exchange).Sound shape := by
  unfold Selecting.withdrawn
  generalize select.offers exchange = offers
  induction offers generalizing exchange with
  | nil => exact exchangeSound
  | cons offer offers ih => exact ih (exchangeSound.withdraw _ _)

theorem suspend (sound : select.Sound shape) (exchangeSound : exchange.Sound shape) (since : Nat) :
    (select.suspend since exchange).2.Sound shape ∧
      ∃ next, (select.suspend since exchange).1 = .sleep since next ∧ next.Sound shape ∧
        next.cases = select.cases ∧ next.hasDefault = select.hasDefault := by
  refine ⟨?_, _, rfl, ⟨sound.cases, sound.claim⟩, rfl, rfl⟩
  simp only [Selecting.suspend]
  have offered : ∀ entry ∈ select.offers exchange,
      ∃ elem, shape.chan entry.1 = some elem ∧ entry.2.Sound shape elem :=
    fun entry member => sound.offers member
  generalize select.offers exchange = offers at offered ⊢
  induction offers generalizing exchange with
  | nil => exact exchangeSound
  | cons entry offers ih =>
    obtain ⟨elem, known, offerSound⟩ := offered entry (by simp)
    exact ih (exchangeSound.offer known offerSound _) fun entry member =>
      offered entry (by simp [member])

def Round (shape : Shape strict) (select : Selecting) : Except RuntimeError RoundEnd → Prop
  | .ok (.chosen selected) => selected.Of shape select.cases select.hasDefault
  | .ok (.sleep _ next) =>
    next.Sound shape ∧ next.cases = select.cases ∧ next.hasDefault = select.hasDefault
  | .error error => error.Allowed strict

theorem poll (sound : select.Sound shape) (exchangeSound : exchange.Sound shape) (since : Nat) :
    (select.poll since exchange).2.Sound shape ∧
      Round shape select (select.poll since exchange).1 := by
  have tried := @Exchange.Sound.tryCases _ _ _ _ exchangeSound _ select.hasDefault select.rotated
    fun entry member => sound.rotated member
  simp only [Selecting.poll]
  split
  · rename_i error changed isTried
    rw [isTried] at tried
    exact ⟨tried.1, tried.2.2 error rfl⟩
  · rename_i selected changed isTried
    rw [isTried] at tried
    exact ⟨tried.1, tried.2.1 selected rfl⟩
  · rename_i changed isTried
    rw [isTried] at tried
    split
    · rename_i hasDefault
      exact ⟨tried.1, hasDefault⟩
    · obtain ⟨suspended, next, isNext, nextSound, cases, hasDefault⟩ :=
        sound.suspend tried.1 since
      refine ⟨suspended, ?_⟩
      simp only [isNext]
      exact ⟨nextSound, cases, hasDefault⟩

theorem step (sound : select.Sound shape) (exchangeSound : exchange.Sound shape) :
    (select.step exchange).2.Sound shape ∧ Round shape select (select.step exchange).1 := by
  have back := @withdrawn _ _ _ select _ exchangeSound
  simp only [Selecting.step]
  split
  · split
    · rename_i index isClaimed
      refine ⟨back, Or.inl ?_⟩
      obtain ⟨case, found, isSend⟩ := SelectCase.mem_sends.mp (back.claimed? sound.claim isClaimed)
      exact ⟨case, found, isSend, rfl⟩
    · exact sound.poll back _
  · exact sound.poll exchangeSound _

end Selecting.Sound

end MiniGo
