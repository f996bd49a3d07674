/-!
The limits of this build. Every bound that a document, a command list or an event log can run into is
named here once.
-/

namespace ManagementScript.Limits

/-- The largest document that is loaded, in bytes. -/
def documentSize : Nat := 10485760

/-- A document with more bytes than this counts as large. -/
def largeDocumentSize : Nat := 1048576

/-- The largest number of lines of a document that is loaded. -/
def documentLines : Nat := 200000

/-- How many elements may be open at once. -/
def openElements : Nat := 64

/-- How many attributes, namespace declarations apart, one element may carry. -/
def attributes : Nat := 32

/-- How many items a list parameter holds. -/
def listItems : Nat := 256

/-- How many commands a script holds. -/
def commands : Nat := 50000

/-- How many events the recent log keeps. -/
def recentEvents : Nat := 10000

/-- The longest event message, in bytes of UTF-8. -/
def messageSize : Nat := 4096

/-- How many events of one document the collector keeps. -/
def documentEvents : Nat := 1000

/-- How many errors are collected at most. -/
def collectedErrors : Nat := 1000

/-- How many events about performance are kept at most. -/
def performanceEvents : Nat := 1000

end ManagementScript.Limits
