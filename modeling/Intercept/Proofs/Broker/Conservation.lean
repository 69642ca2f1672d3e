import Intercept.Proofs.Broker.Subscribers

/-! A broker loses nothing and duplicates nothing: each tag has one place, and each body that was
published is found once. -/
namespace Intercept

namespace BrokerCall

/-- The bodies that a call publishes. -/
def published : BrokerCall → List Body
  | publish body => [body]
  | publishAll bodies => bodies
  | publishValue encoded => encoded.toList
  | _ => []

/-- The bodies that the backup consumers take in a call. -/
def taken (b : Broker String) : BrokerCall → List Body
  | consumeBacklog count => b.backlog.take count
  | _ => []

end BrokerCall

namespace RecordedBroker
variable {r r' : RecordedBroker} {gone bodies : List Body} {calls : List BrokerCall}
  {call : BrokerCall} {body : Body} {d : Nat × Body} {t : Nat} {multiple : Bool}

/-- The bodies that were delivered under some tags. -/
def bodiesOf (r : RecordedBroker) (tags : List Nat) : List Body :=
  (r.deliveries.filter (·.1 ∈ tags)).map (·.2)

/-- The bodies that the backup consumers take in some calls. -/
def taken (r : RecordedBroker) : List BrokerCall → List Body
  | [] => []
  | call :: rest => call.taken r.broker ++ (r.apply call).1.taken rest

/-- The tags were received in turn, as were the bodies, and each body that was published is unsettled,
acknowledged, in the backlog, or gone from there. -/
structure Conserved (r : RecordedBroker) (published gone : List Body) : Prop where
  received : r.deliveries.map (·.1) = List.range' 1 r.broker.lastTag
  inTurn : (r.deliveries.map (·.2)).Sublist published
  balanced : r.broker.Balanced
  unsettled : r.broker.unsettled.Sublist r.deliveries
  bodies : ∀ x, published.count x = (r.broker.unsettled.map (·.2)).count x +
    (r.bodiesOf r.broker.acked).count x + r.broker.backlog.count x + gone.count x

/-- The part of a broker that the account of its messages is about. -/
def stock (r : RecordedBroker) :
    List (Nat × Body) × Nat × List (Nat × Body) × List Nat × List Nat × List Body :=
  (r.deliveries, r.broker.lastTag, r.broker.unsettled, r.broker.acked, r.broker.nacked,
    r.broker.backlog)

theorem conserved_initial : ({} : RecordedBroker).Conserved [] [] :=
  ⟨rfl, .refl _, Broker.balanced_initial, .refl _, fun _ => rfl⟩

theorem Conserved.congr (hc : r.Conserved bodies gone) (hs : r'.stock = r.stock) :
    r'.Conserved bodies gone := by
  simp only [stock, Prod.mk.injEq] at hs
  obtain ⟨hd, hlast, hun, hacked, hnacked, hbacklog⟩ := hs
  obtain ⟨hreceived, hinTurn, hbalanced, hunsettled, hbodies⟩ := hc
  refine ⟨?_, by rwa [hd], ?_, ?_, fun x => ?_⟩
  · rw [hd, hlast, hreceived]
  · rwa [Broker.Balanced, hacked, hnacked, hlast, Broker.tags, hun]
  · rwa [hd, hun]
  · rw [hun, hacked, hbacklog, bodiesOf, hd]
    exact hbodies x

/-! Tags. -/

theorem Conserved.placed_le (hc : r.Conserved bodies gone)
    (ht : t ∈ r.broker.acked ++ r.broker.nacked ++ r.broker.tags) : t ≤ r.broker.lastTag := by
  have hrange := hc.balanced.mem_iff.1 ht
  rw [List.mem_range'_1] at hrange
  omega

/-- An unsettled tag is not among the settled ones. -/
theorem Conserved.unacked (hc : r.Conserved bodies gone) (ht : t ∈ r.broker.tags) :
    t ∉ r.broker.acked := by
  intro hacked
  have hapart := (List.nodup_append.1 hc.balanced.nodup).2.2
  exact hapart t (List.mem_append_left _ hacked) t ht rfl

/-- The unsettled tags ascend. -/
theorem Conserved.ascending (hc : r.Conserved bodies gone) :
    r.broker.tags.Pairwise (· < ·) := by
  have hsub : r.broker.tags.Sublist (r.deliveries.map (·.1)) := hc.unsettled.map _
  rw [hc.received] at hsub
  exact List.Pairwise.sublist hsub List.pairwise_lt_range'

/-- What is delivered under an unsettled tag is what is unsettled. -/
theorem Conserved.delivered_unsettled (hc : r.Conserved bodies gone) (ht : t ∈ r.broker.tags) :
    r.deliveries.filter (·.1 = t) = r.broker.unsettled.filter (·.1 = t) := by
  have hone : (r.deliveries.filter (·.1 = t)).length ≤ 1 := by
    have hcount := List.nodup_iff_count.1 (hc.received ▸ List.nodup_range') t
    rwa [List.count_eq_countP, List.countP_map, List.countP_eq_length_filter] at hcount
  have hsome : 0 < (r.broker.unsettled.filter (·.1 = t)).length := by
    obtain ⟨d, hd, rfl⟩ := List.mem_map.1 ht
    exact List.length_pos_of_mem (List.mem_filter.2 ⟨hd, by simp⟩)
  have hsub : (r.broker.unsettled.filter (·.1 = t)).Sublist (r.deliveries.filter (·.1 = t)) :=
    hc.unsettled.filter _
  exact (hsub.eq_of_length_le (by omega)).symm

/-! Publishing. -/

theorem Conserved.publish (hc : r.Conserved bodies gone) (body : Body) :
    (r.publish body).1.Conserved (bodies ++ [body]) gone := by
  have hp := publishes_publish r body
  generalize (r.publish body).1 = r', (r.publish body).2 = reply at hp
  cases hp with
  | stored _ =>
    refine ⟨hc.received, hc.inTurn.trans (List.sublist_append_left _ _), hc.balanced, hc.unsettled,
      fun x => ?_⟩
    have := hc.bodies x
    simp only [List.count_append]
    change _ = _ + (r.bodiesOf r.broker.acked).count x + _ + _
    omega
  | delivered c _ =>
    have hunacked : r.broker.lastTag + 1 ∉ r.broker.acked := fun hmem => by
      have := hc.placed_le (List.mem_append_left _ (List.mem_append_left _ hmem))
      omega
    let after : RecordedBroker := {
      broker := { r.broker with
        lastTag := r.broker.lastTag + 1
        unsettled := r.broker.unsettled ++ [(r.broker.lastTag + 1, body)] }
      events := r.events ++ [(c.sink, .received (r.broker.lastTag + 1) body)] }
    have hd : after.deliveries = r.deliveries ++ [(r.broker.lastTag + 1, body)] :=
      @deliveries_append r after [(c.sink, .received (r.broker.lastTag + 1) body)] rfl
    change after.Conserved _ _
    refine ⟨?_, ?_, hc.balanced.deliver, ?_, fun x => ?_⟩
    · rw [hd, List.map_append, hc.received]
      simp [after, List.range'_concat, Nat.add_comm]
    · rw [hd, List.map_append]
      exact hc.inTurn.append_right _
    · rw [hd]
      exact hc.unsettled.append_right _
    · have := hc.bodies x
      have hacked : after.bodiesOf after.broker.acked = r.bodiesOf r.broker.acked := by
        simp [bodiesOf, hd, after, hunacked]
      rw [hacked]
      simp only [after, List.map_append, List.count_append, List.map_cons, List.map_nil]
      omega

theorem Conserved.publishAll (hc : r.Conserved bodies gone) (more : List Body) :
    (r.after (more.map .publish)).Conserved (bodies ++ more) gone := by
  induction more generalizing r bodies with
  | nil => simpa using hc
  | cons body rest ih => simpa using ih (hc.publish body)

/-! Settling. -/

/-- What satisfies a property and what does not make up the whole. -/
theorem count_filter_add {l : List (Nat × Body)} (p : Nat × Body → Bool) (x : Body) :
    (l.map (·.2)).count x =
      ((l.filter p).map (·.2)).count x + ((l.filter fun d => !p d).map (·.2)).count x := by
  rw [← List.count_append, ← List.map_append]
  exact ((List.filter_append_perm p l).symm.map _).count_eq x

/-- An acknowledged body leaves the unsettled ones. -/
theorem Conserved.bodiesOf_acked (hc : r.Conserved bodies gone) (ht : t ∈ r.broker.tags)
    (x : Body) : (r.bodiesOf (r.broker.acked ++ [t])).count x = (r.bodiesOf r.broker.acked).count x +
      ((r.broker.unsettled.filter (·.1 = t)).map (·.2)).count x := by
  have hnew : (r.deliveries.filter (·.1 ∈ r.broker.acked ++ [t])).filter (·.1 = t) =
      r.broker.unsettled.filter (·.1 = t) := by
    rw [← hc.delivered_unsettled ht, List.filter_filter]
    apply List.filter_congr
    intro d _
    by_cases hd : d.1 = t <;> simp [hd]
  have hold : (r.deliveries.filter (·.1 ∈ r.broker.acked ++ [t])).filter (fun d => !decide (d.1 = t)) =
      r.deliveries.filter (·.1 ∈ r.broker.acked) := by
    rw [List.filter_filter]
    apply List.filter_congr
    intro d _
    by_cases hd : d.1 = t <;> simp [hd, hc.unacked ht]
  have hsplit := count_filter_add (l := r.deliveries.filter (·.1 ∈ r.broker.acked ++ [t])) (·.1 = t) x
  rw [hnew, hold] at hsplit
  simp only [bodiesOf]
  omega

theorem Conserved.ack (hc : r.Conserved bodies gone) (ho : (r.broker.ack t).2 = .ok ()) :
    ({ r with broker := (r.broker.ack t).1 } : RecordedBroker).Conserved bodies gone := by
  obtain ⟨hopen, ht⟩ := Broker.ack_ok_iff.1 ho
  obtain ⟨b, hb, hsettles, _⟩ := Broker.ack_of_unsettled hopen ht
  have hbalanced := hsettles.balanced hc.balanced
  rw [Broker.ack_eq hopen ht] at hb ⊢
  cases hb
  refine ⟨hc.received, hc.inTurn, hbalanced, ?_, fun x => ?_⟩
  · exact List.filter_sublist.trans hc.unsettled
  · have hall := hc.bodies x
    have hacked := hc.bodiesOf_acked ht x
    have hsplit := count_filter_add (l := r.broker.unsettled) (·.1 = t) x
    have hkept : (r.broker.unsettled.filter fun d => !decide (d.1 = t)) =
        r.broker.unsettled.filter (·.1 != t) := rfl
    rw [hkept] at hsplit
    change _ = ((r.broker.unsettled.filter (·.1 != t)).map (·.2)).count x +
      (r.bodiesOf (r.broker.acked ++ [t])).count x + r.broker.backlog.count x + gone.count x
    omega

theorem Conserved.nack (hc : r.Conserved bodies gone)
    (ho : (r.broker.nack t multiple).2 = .ok ()) :
    ({ r with broker := (r.broker.nack t multiple).1 } : RecordedBroker).Conserved bodies gone := by
  obtain ⟨hopen, ht⟩ := Broker.nack_ok_iff.1 ho
  obtain ⟨b, hb, hsettles, _⟩ := @Broker.nack_of_unsettled String r.broker t multiple hopen ht
  have hbalanced := hsettles.balanced hc.balanced
  rw [Broker.nack_eq hopen ht] at hb ⊢
  cases hb
  refine ⟨hc.received, hc.inTurn, hbalanced, ?_, fun x => ?_⟩
  · exact List.filter_sublist.trans hc.unsettled
  · have hall := hc.bodies x
    have hsplit := count_filter_add (l := r.broker.unsettled) (fun d => Broker.covers t multiple d.1) x
    change _ = ((r.broker.unsettled.filter fun d => !Broker.covers t multiple d.1).map (·.2)).count x +
      (r.bodiesOf r.broker.acked).count x + (r.broker.backlog ++ (r.broker.unsettled.filter
        fun d => Broker.covers t multiple d.1).map (·.2)).count x + gone.count x
    rw [List.count_append]
    omega

/-- The backup consumers take messages. -/
theorem Conserved.consumeBacklog (hc : r.Conserved bodies gone) (count : Nat) :
    ({ r with broker := (r.broker.consumeBacklog count).1 } : RecordedBroker).Conserved bodies
      (gone ++ r.broker.backlog.take count) := by
  refine ⟨hc.received, hc.inTurn, hc.balanced, hc.unsettled, fun x => ?_⟩
  have hall := hc.bodies x
  have hsplit : r.broker.backlog.count x =
      (r.broker.backlog.take count).count x + (r.broker.backlog.drop count).count x := by
    rw [← List.count_append, List.take_append_drop]
  change _ = (r.broker.unsettled.map (·.2)).count x + (r.bodiesOf r.broker.acked).count x +
    (r.broker.backlog.drop count).count x + (gone ++ r.broker.backlog.take count).count x
  rw [List.count_append]
  omega

/-! Calls. -/

theorem stock_of_fails {b : Broker String} {e : BrokerError} (hf : r.broker.Fails b e) :
    ({ r with broker := b } : RecordedBroker).stock = r.stock := by
  cases hf <;> rfl

theorem stock_of_told {told : List (String × ConsumerEvent)} {b : Broker String}
    (hb : (b.lastTag, b.unsettled, b.acked, b.nacked, b.backlog) = (r.broker.lastTag,
      r.broker.unsettled, r.broker.acked, r.broker.nacked, r.broker.backlog))
    (htold : ∀ n ∈ told, n.2.delivery? = none) :
    ({ broker := b, events := r.events ++ told } : RecordedBroker).stock = r.stock := by
  have hd : deliveries { broker := b, events := r.events ++ told } = r.deliveries := by
    rw [deliveries_append (r := r) rfl, List.filterMap_eq_nil_iff.2 htold, List.append_nil]
  rw [stock, hd, stock]
  exact congrArg _ hb

theorem stock_cancel {tag : String} : (r.apply (.cancel tag)).1.stock = r.stock := by
  have hcancels := cancels_apply r tag
  generalize (r.apply (.cancel tag)).1 = r', (r.apply (.cancel tag)).2 = reply at hcancels
  cases hcancels with
  | failed b e hf => exact stock_of_fails hf
  | held c rest _ _ _ => rfl
  | confirmed c rest _ _ _ => exact stock_of_told rfl (by simp [ConsumerEvent.delivery?])

theorem stock_release : (r.apply .release).1.stock = r.stock := by
  change (r.broker.held.foldl confirm { r with broker := r.broker.release.1 }).stock = _
  rw [foldl_confirm]
  exact stock_of_told rfl (by simp [ConsumerEvent.delivery?])

theorem stock_failConnection {reason : String} :
    (r.apply (.failConnection reason)).1.stock = r.stock := by
  change (r.broker.consumers.foldl _ r).stock = _
  rw [foldl_note]
  exact stock_of_told rfl (by simp [ConsumerEvent.delivery?])

/-- An account is kept by a call that touches nothing of it. -/
theorem Conserved.keep (hc : r.Conserved bodies gone) (hp : call.published = [])
    (ht : call.taken r.broker = []) (hs : (r.apply call).1.stock = r.stock) :
    (r.apply call).1.Conserved (bodies ++ call.published) (gone ++ call.taken r.broker) := by
  rw [hp, ht, List.append_nil, List.append_nil]
  exact hc.congr hs

theorem stock_of_error {e : BrokerError} (he : (r.apply call).2 = .result (.error e)) :
    (r.apply call).1.stock = r.stock := by
  obtain ⟨b, hb, hfails⟩ := fails_apply he
  rw [hb]
  exact stock_of_fails hfails

theorem Conserved.apply (hc : r.Conserved bodies gone) (call : BrokerCall) :
    (r.apply call).1.Conserved (bodies ++ call.published) (gone ++ call.taken r.broker) := by
  cases call with
  | start tag priority name =>
    refine hc.keep rfl rfl ?_
    cases hd : r.broker.disposed with
    | true => simp [RecordedBroker.apply, Broker.start_of_disposed hd]
    | false => simp [RecordedBroker.apply, Broker.start_of_open hd, stock, deliveries, Broker.record]
  | publish body => simpa [BrokerCall.published, BrokerCall.taken] using hc.publish body
  | publishAll bodies =>
    simpa [BrokerCall.published, BrokerCall.taken, apply_publishAll] using hc.publishAll bodies
  | publishValue encoded =>
    simpa [BrokerCall.published, BrokerCall.taken, apply_publishValue] using hc.publishAll encoded.toList
  | ack t =>
    cases ho : (r.broker.ack t).2 with
    | ok _ => simpa [BrokerCall.published, BrokerCall.taken, RecordedBroker.apply] using hc.ack ho
    | error e => exact hc.keep rfl rfl (stock_of_error (congrArg BrokerReply.result ho))
  | nack t multiple =>
    cases ho : (r.broker.nack t multiple).2 with
    | ok _ => simpa [BrokerCall.published, BrokerCall.taken, RecordedBroker.apply] using hc.nack ho
    | error e => exact hc.keep rfl rfl (stock_of_error (congrArg BrokerReply.result ho))
  | cancel tag => exact hc.keep rfl rfl stock_cancel
  | hold => exact hc.keep rfl rfl rfl
  | release => exact hc.keep rfl rfl stock_release
  | failConnection reason => exact hc.keep rfl rfl stock_failConnection
  | consumeBacklog count =>
    simpa [BrokerCall.published, BrokerCall.taken, RecordedBroker.apply, Broker.consumeBacklog] using
      hc.consumeBacklog count
  | dispose =>
    refine hc.keep rfl rfl ?_
    change ({ r with broker := r.broker.dispose } : RecordedBroker).stock = _
    rw [Broker.dispose]
    split <;> rfl

theorem Conserved.after (hc : r.Conserved bodies gone) (calls : List BrokerCall) :
    (r.after calls).Conserved (bodies ++ calls.flatMap (·.published)) (gone ++ r.taken calls) := by
  induction calls generalizing r bodies gone with
  | nil => simpa [taken] using hc
  | cons call rest ih =>
    simpa [taken, List.append_assoc] using ih (hc.apply call)

/-! A released channel. -/

theorem operations_publishes {reply : Option Nat} (hp : r.Publishes body r' reply) :
    r'.broker.operations = r.broker.operations := by
  cases hp <;> rfl

theorem operations_publishAll {more : List Body} :
    (r.after (more.map .publish)).broker.operations = r.broker.operations := by
  induction more generalizing r with
  | nil => rfl
  | cons body rest ih =>
    exact (@ih (r.publish body).1).trans (operations_publishes (publishes_publish r body))

/-- On a released channel no call is recorded. -/
theorem operations_of_disposed (hi : r.subscribers.Sound) (hd : r.broker.disposed = true)
    (call : BrokerCall) : (r.apply call).1.broker.operations = r.broker.operations := by
  cases call with
  | start tag priority name => simp [RecordedBroker.apply, Broker.start_of_disposed hd]
  | publish body => exact operations_publishes (publishes_publish r body)
  | publishAll bodies =>
    rw [apply_publishAll]
    exact operations_publishAll
  | publishValue encoded =>
    rw [apply_publishValue]
    exact operations_publishAll
  | ack t => simp [RecordedBroker.apply, Broker.ack_of_disposed hd]
  | nack t multiple => simp [RecordedBroker.apply, Broker.nack_of_disposed hd]
  | cancel tag => simp [RecordedBroker.apply, Broker.cancel_of_disposed hd]
  | hold => rfl
  | release =>
    have hheld : r.broker.held = [] := (hi.released hd).2
    simp [RecordedBroker.apply, Broker.release, hheld]
  | failConnection reason => simp [RecordedBroker.apply, foldl_note]
  | consumeBacklog count => rfl
  | dispose => simp [RecordedBroker.apply, Broker.dispose, hd]

/-- No message is lost and none is duplicated. Each tag that was given out is acknowledged, rejected
or unsettled, and each body that was published is under an unsettled or an acknowledged tag, in the
backlog, or taken from there. On an open channel exactly the unsettled tags can be settled, and a
batch reject takes the unsettled tags up to its own in turn. A call that fails leaves all of this as
it is; it is a violation unless the channel is released, and then nothing is recorded any more. -/
theorem messages_conserved (hr : ({} : RecordedBroker).after calls = r) :
    ((r.broker.acked ++ r.broker.nacked ++ r.broker.tags).Perm (List.range' 1 r.broker.lastTag) ∧
      r.broker.acked.Nodup ∧ r.broker.nacked.Nodup ∧ r.broker.tags.Pairwise (· < ·)) ∧
    (r.deliveries.map (·.1) = List.range' 1 r.broker.lastTag ∧
      r.broker.unsettled.Sublist r.deliveries ∧
      (calls.flatMap (·.published)).Perm (r.broker.unsettled.map (·.2) ++
        r.bodiesOf r.broker.acked ++ r.broker.backlog ++ ({} : RecordedBroker).taken calls)) ∧
    (r.broker.disposed = false → ∀ t,
      ((r.apply (.ack t)).2 = .result (.ok ()) ↔ t ∈ r.broker.tags) ∧
      (∀ multiple, (r.apply (.nack t multiple)).2 = .result (.ok ()) ↔ t ∈ r.broker.tags) ∧
      (t ∈ r.broker.tags → (r.apply (.nack t true)).1 = { r with broker := { r.broker with
        operations := r.broker.operations ++ [.nack t true]
        unsettled := r.broker.unsettled.filter fun d => !decide (d.1 ≤ t)
        nacked := r.broker.nacked ++ r.broker.tags.filter (· ≤ t)
        backlog := r.broker.backlog ++ (r.broker.unsettled.filter (·.1 ≤ t)).map (·.2) } })) ∧
    (∀ call e, (r.apply call).2 = .result (.error e) →
      (r.broker.disposed = true → e = .closed ∧ (r.apply call).1 = r) ∧
      (r.broker.disposed = false → ∃ op v, e = .protocol v.text ∧
        (r.apply call).1 = { r with broker := { r.broker with
          operations := r.broker.operations ++ [op]
          violations := r.broker.violations ++ [v] } })) ∧
    (r.broker.disposed = true →
      ∀ call, (r.apply call).1.broker.operations = r.broker.operations) := by
  have hc : r.Conserved (calls.flatMap (·.published)) (({} : RecordedBroker).taken calls) := by
    have hafter := conserved_initial.after calls
    rwa [hr, List.nil_append, List.nil_append] at hafter
  have hsound : r.subscribers.Sound := hr ▸ sound_after sound_initial calls
  have hplaced := List.nodup_append.1 (List.nodup_append.1 hc.balanced.nodup).1
  refine ⟨⟨hc.balanced, hplaced.1, hplaced.2.1, hc.ascending⟩, ⟨hc.received, hc.unsettled, ?_⟩,
    fun hopen t => ⟨?_, fun multiple => ?_, fun ht => ?_⟩, fun call e he => ?_,
    fun hd call => operations_of_disposed hsound hd call⟩
  · rw [List.perm_iff_count]
    intro x
    have := hc.bodies x
    simp only [List.count_append]
    omega
  · have hiff := @Broker.ack_ok_iff _ r.broker t
    simpa [RecordedBroker.apply, hopen] using hiff
  · have hiff := @Broker.nack_ok_iff _ r.broker t multiple
    simpa [RecordedBroker.apply, hopen] using hiff
  · simp only [RecordedBroker.apply, Broker.nack_eq hopen ht]
    rw [Broker.tags_filter r.broker (Broker.covers t true)]
    rfl
  · obtain ⟨b, hb, hfails⟩ := fails_apply he
    rw [hb]
    cases hfails with
    | closed hd => exact ⟨fun _ => ⟨rfl, rfl⟩, fun hopen => by simp [hd] at hopen⟩
    | refused op v hopen _ => exact ⟨fun hd => by simp [hopen] at hd, fun _ => ⟨op, v, rfl, rfl⟩⟩

/-- A batch reject over a gap, between calls that fail. -/
def batchRejected : List BrokerCall :=
  [.publish [0], .start "a" 0 "first", .publishAll [[1], [2], [3]], .start "b" 5 "second",
    .publish [4], .ack 2, .ack 2, .nack 3 true, .consumeBacklog 2, .publishValue none, .dispose,
    .nack 4 false, .publish [5]]

theorem batch_reject_conserves :
    let r := ({} : RecordedBroker).after batchRejected
    (r.broker.acked = [2] ∧ r.broker.nacked = [1, 3] ∧ r.broker.unsettled = [(4, [4])] ∧
      r.broker.backlog = [[3], [5]] ∧ r.broker.violations = [.unknownAck 2]) ∧
    (batchRejected.flatMap (·.published)).Perm (r.broker.unsettled.map (·.2) ++
      r.bodiesOf r.broker.acked ++ r.broker.backlog ++ ({} : RecordedBroker).taken batchRejected) :=
  ⟨by decide, (messages_conserved rfl).2.1.2.2⟩

end RecordedBroker
end Intercept
