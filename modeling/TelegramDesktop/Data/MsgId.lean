import Mathlib.Algebra.Order.Group.Int

namespace TelegramDesktop.Data

abbrev MsgId := ℤ

def ServerMaxMsgId : ℤ := 2 ^ 56

def IsServerMsgId (id : ℤ) : Prop := 0 < id ∧ id < ServerMaxMsgId

instance (id : ℤ) : Decidable (IsServerMsgId id) :=
  inferInstanceAs (Decidable (0 < id ∧ id < ServerMaxMsgId))

end TelegramDesktop.Data
