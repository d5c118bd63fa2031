/-
  Notifications: stored, emitted to the recipient's sockets, pushed to the
  recipient's device.
-/
import Marketplace.Chats

namespace Marketplace

variable (cfg : Config)

structure CreateNotificationInput where
  userId : String
  type : NotificationType
  title : String
  body : Option String
  itemId : Option ℤ
  orderId : Option ℤ

/-- FCM errors that mean the device token is dead and should be forgotten. -/
def STALE_TOKEN_ERRORS : List String :=
  ["messaging/registration-token-not-registered", "messaging/invalid-registration-token"]

/-- Best effort. Clears the user's token if FCM says it is no longer valid. A failed statement is
    logged by `notify`, so the request goes on at `k` in any case. -/
def PushService.sendToUser (userId : String) (notificationId : ℤ) (n : Notification) (k : Program) :
    Program :=
  if !cfg.messaging then k
  else
    .tx (.select (fun d => (d.users.get userId).bind User.fcmToken) .commit) fun
      | .ok (some token) =>
        if token = "" then k
        else
          .call (.fcm ⟨token, notificationId, n⟩) fun
            | .rejected (some code) =>
              if code ∈ STALE_TOKEN_ERRORS then
                -- Only clear if the token was not replaced in the meantime.
                .tx (.update (.user userId) (fun (u : User) => u.fcmToken = some token)
                  (fun (u : User) => { u with fcmToken := none }) .commit) fun _ => k
              else k
            | _ => k
      | _ => k

namespace NotificationsService

/-- Best effort: a failed notification is logged and never fails the action that triggered it. -/
def notify (input : CreateNotificationInput) (k : Program) : Program :=
  .tx (.insert .notifications
      (fun now _ => ⟨input.userId, input.type, input.title, input.body, input.itemId, input.orderId,
        false, now⟩) fun n r => .commit ((n : ℤ), (r : Notification))) fun
    | .ok (notificationId, n) =>
      .call (.socket (.emit [userRoom input.userId] none (.notification notificationId n))) fun
        | .done => PushService.sendToUser cfg input.userId notificationId n k
        | .rejected _ => k
    | .error _ => k

/-- The title of an order's item in the texts. -/
def itemTitle (o : OrderDetail) : String :=
  match o.item with
  | some item => item.title
  | none => "item #" ++ toString o.order.itemId

/-- The buyer's name in the texts. -/
def buyerName (o : OrderDetail) : String :=
  match o.buyer with
  | some buyer => buyer.fullName
  | none => o.order.buyerId

/-- New order → seller. -/
def notifyOrderPlaced (o : OrderDetail) (k : Program) : Program :=
  notify cfg
    { userId := o.order.sellerId, type := .orderPlaced, title := "New order"
      body := some (buyerName o ++ " ordered " ++ toString o.order.quantity ++ " × " ++ itemTitle o)
      itemId := some o.order.itemId, orderId := some o.orderId } k

/-- COMPLETED → buyer. CANCELLED → whichever party did not cancel. -/
def notifyOrderStatusChanged (o : OrderDetail) (changedBy : String) (k : Program) : Program :=
  let title := itemTitle o
  match o.order.status with
  | .completed =>
    notify cfg
      { userId := o.order.buyerId, type := .orderCompleted, title := "Order completed"
        body := some ("Your order for " ++ title ++ " was marked as completed")
        itemId := some o.order.itemId, orderId := some o.orderId } k
  | .cancelled =>
    let cancelledBySeller : Bool := changedBy = o.order.sellerId
    notify cfg
      { userId := if cancelledBySeller then o.order.buyerId else o.order.sellerId
        type := .orderCancelled, title := "Order cancelled"
        body := some ("The " ++ (if cancelledBySeller then "seller" else "buyer") ++
          " cancelled the order for " ++ title)
        itemId := some o.order.itemId, orderId := some o.orderId } k
  | .pending => k

/-- Payment slip attached → seller. -/
def notifyPaymentSlipAttached (o : OrderDetail) (k : Program) : Program :=
  notify cfg
    { userId := o.order.sellerId, type := .paymentSlipAttached, title := "Payment slip received"
      body := some (buyerName o ++ " attached a payment slip for " ++ itemTitle o)
      itemId := some o.order.itemId, orderId := some o.orderId } k

/-- The rows of `findMine`, newest first. -/
def mine (d : Database) (userId : String) (unreadOnly : Bool) : List (ℤ × Notification) :=
  orderBy (newest Notification.createdAt)
    (d.notifications.rows.filter fun x => x.2.userId = userId && (!unreadOnly || !x.2.isRead))

def findMine (userId : String) (dto : ListNotificationsQueryDto) : Program :=
  dto.getManyAndCount (fun d => mine d userId (dto.unreadOnly.getD false)) fun page =>
    answer (.notifications page)

def countUnread (userId : String) (k : ℕ → Program) : Program :=
  query
    (fun d => (d.notifications.rows.filter fun x => x.2.userId = userId && !x.2.isRead).length) k

/-- Keeps badges in sync across the user's other devices/tabs. -/
def emitRead (userId : String) (notificationId : Option ℤ) (k : Program) : Program :=
  countUnread userId fun unreadCount =>
    socket (.emit [userRoom userId] none (.notificationsRead notificationId unreadCount)) k

def markRead (userId : String) (notificationId : ℤ) : Program :=
  query (fun d => (d.notifications.get notificationId).filter fun n => n.userId = userId) fun
    | none => fail (.app (.notFound s!"Notification {notificationId} not found"))
    | some n =>
      if n.isRead then answer (.notification notificationId n)
      else
        .tx (.update (.notification notificationId) (fun _ => true)
          (fun (n : Notification) => { n with isRead := true }) .commit) fun
          | .error e => fail e
          | .ok _ => emitRead userId (some notificationId)
              (answer (.notification notificationId { n with isRead := true }))

def markAllRead (userId : String) : Program :=
  let unread (n : Notification) : Bool := n.userId = userId && !n.isRead
  .tx (.select (fun d => (d.notifications.rows.filter fun x => unread x.2).map Prod.fst) fun ids =>
      .updateEach Key.notification (fun _ => unread)
        (fun _ (n : Notification) => { n with isRead := true }) .commit ids 0) fun
    | .error e => fail e
    | .ok count =>
      if count > 0 then emitRead userId none (answer (.count count)) else answer (.count count)

end NotificationsService

end Marketplace
